import LexFront.Proofs.Cpp.PlainRules
import LexFront.Proofs.Cpp.Quotes
import Mathlib.Data.List.Nodup

/-!
# Splices inside literals

A literal is scanned among its characters and decoded as it was written. The decoder takes a splice
for an escaped line break, which vanishes like a splice does. Only where a splice stands right
behind the backslash of an escape the two readings part: there the backslash escapes the backslash
of the splice, and the line break is left over.

Key facts:

* `unescape_writtenText_iff`: what is decoded is the same with and without splices, unless one cuts
  an escape.
* `pieces_of_accepted`: the parts of a literal that is accepted in full.
* `decode_unsplice_iff`: when the splices of a literal make no difference to its value.
-/

set_option autoImplicit false

namespace LexFront.Cpp

/-- Whether a splice stands behind the backslash of an escape. -/
def cutsEscape : List Piece → Bool
  | .kept '\\' :: .splice _ :: _ => true
  | .kept '\\' :: .kept _ :: rest => cutsEscape rest
  | _ :: rest => cutsEscape rest
  | [] => false

theorem cutsEscape_cons {p : Piece} (hp : p ≠ .kept '\\') (ps : List Piece) :
    cutsEscape (p :: ps) = cutsEscape ps := by
  rw [cutsEscape]
  · exact fun _ _ h ↦ absurd h hp
  · exact fun _ _ h ↦ absurd h hp

/-- Pieces are read like the escapes that they spell, a backslash together with what is behind
it. -/
@[elab_as_elim]
theorem cutsEscape_induction {P : List Piece → Prop} (nil : P []) (lone : P [.kept '\\'])
    (cut : ∀ b ps, P ps → P (.kept '\\' :: .splice b :: ps))
    (escape : ∀ c ps, P ps → P (.kept '\\' :: .kept c :: ps))
    (cons : ∀ p ps, p ≠ .kept '\\' → P ps → P (p :: ps)) : ∀ ps, P ps
  | [] => nil
  | [p] => if h : p = .kept '\\' then h ▸ lone else cons p [] h nil
  | p :: q :: ps =>
    if h : p = .kept '\\' then
      have ih := cutsEscape_induction nil lone cut escape cons ps
      match q with
      | .kept c => h ▸ escape c ps ih
      | .splice b => h ▸ cut b ps ih
    else cons p (q :: ps) h (cutsEscape_induction nil lone cut escape cons (q :: ps))

/-- Every splice hides one line break. -/
def HidesBreaks (ps : List Piece) : Prop :=
  ∀ b, .splice b ∈ ps → b ∈ [['\r', '\n'], ['\r'], ['\n']]

theorem hidesBreaks_pieces (t : Text) : HidesBreaks (pieces t) := fun _ h ↦ mem_of_splice h

theorem HidesBreaks.of_subset {ps qs : List Piece} (h : HidesBreaks qs) (hs : ps ⊆ qs) :
    HidesBreaks ps := fun b hb ↦ h b (hs hb)

theorem HidesBreaks.tail {p : Piece} {ps : List Piece} (h : HidesBreaks (p :: ps)) :
    HidesBreaks ps := h.of_subset (List.subset_cons_self p ps)

/-- What is written is kept, or belongs to a splice. -/
theorem mem_writtenText {ps : List Piece} (hps : HidesBreaks ps) {c : Char}
    (h : c ∈ writtenText ps) : c ∈ keptText ps ∨ c = '\\' ∨ Text.isLineBreak c = true := by
  obtain ⟨p, hp, hc⟩ := List.mem_flatMap.1 h
  cases p with
  | kept d =>
    obtain rfl := List.mem_singleton.1 hc
    exact .inl (List.mem_filterMap.2 ⟨.kept c, hp, rfl⟩)
  | splice b =>
    rcases List.mem_cons.1 hc with rfl | hc
    · exact .inr (.inl rfl)
    · have hbreak : ∀ b ∈ [['\r', '\n'], ['\r'], ['\n']], b.all Text.isLineBreak = true := by
        decide
      exact .inr (.inr (List.all_eq_true.1 (hbreak b (hps b hp)) c hc))

/-! ### What is decoded -/

/-- Within a line no break of two characters begins behind a piece. -/
theorem head?_writtenText_ne {ps : List Piece} (hk : (keptText ps).IsUnbroken) {c : Char}
    (hc : Text.isLineBreak c = true) : (writtenText ps).head? ≠ some c := by
  intro h
  have hslash : c ≠ '\\' := by
    rintro rfl
    cases hc
  have hmem := List.mem_of_mem_head? (head?_writtenText h hslash)
  rw [hk c hmem] at hc
  cases hc

/-- A splice vanishes. -/
theorem unescape_splice {b t : Text} (hb : b ∈ [['\r', '\n'], ['\r'], ['\n']])
    (ht : t.head? ≠ some '\n') : Text.unescape ('\\' :: (b ++ t)) = Text.unescape t := by
  simp only [List.mem_cons, List.not_mem_nil, or_false] at hb
  rcases hb with rfl | rfl | rfl
  · rfl
  · refine Text.unescape_escape fun tail _ htail ↦ ht ?_
    obtain rfl : t = '\n' :: tail := htail
    rfl
  · exact Text.unescape_escape (by simp)

/-- Behind a backslash that it does not belong to, it leaves its line break. -/
theorem unescape_cut_splice {b t : Text} (hb : b ∈ [['\r', '\n'], ['\r'], ['\n']]) :
    Text.unescape ('\\' :: '\\' :: (b ++ t)) = '\\' :: (b ++ Text.unescape t) := by
  rw [Text.unescape_escape (by simp)]
  simp only [List.mem_cons, List.not_mem_nil, or_false] at hb
  rcases hb with rfl | rfl | rfl <;> simp [Text.escapeValue, Text.unescape_cons]

/-- An escape within a line. -/
theorem unescape_escape_of_unbroken {c : Char} (hc : Text.isLineBreak c = false) (t : Text) :
    Text.unescape ('\\' :: c :: t) = Text.escapeValue c ++ Text.unescape t :=
  Text.unescape_escape fun _ hcr _ ↦ Text.ne_return_of_isLineBreak hc hcr

theorem length_escapeValue {c : Char} (hc : Text.isLineBreak c = false) :
    (Text.escapeValue c).length = 1 := by
  fun_cases Text.escapeValue c <;> first | rfl | cases hc

/-- A backslash in front of a line adds a character or none. -/
theorem length_unescape_backslash {t : Text} (ht : t.IsUnbroken) :
    (Text.unescape t).length ≤ (Text.unescape ('\\' :: t)).length ∧
      (Text.unescape ('\\' :: t)).length ≤ (Text.unescape t).length + 1 := by
  induction t with
  | nil => decide
  | cons c t ih =>
    rw [Text.isUnbroken_cons] at ht
    have hescape : (Text.unescape ('\\' :: c :: t)).length = (Text.unescape t).length + 1 := by
      rw [unescape_escape_of_unbroken ht.1, List.length_append, length_escapeValue ht.1,
        Nat.add_comm]
    rw [hescape]
    by_cases hc : c = '\\'
    · obtain ⟨hle, hge⟩ := ih ht.2
      subst hc
      omega
    · rw [Text.unescape_cons hc, List.length_cons]
      omega

/-- How what is decoded of some pieces compares with what is decoded of their characters. -/
structure Compares (ps : List Piece) : Prop where
  eq : cutsEscape ps = false → Text.unescape (writtenText ps) = Text.unescape (keptText ps)
  lt : cutsEscape ps = true →
    (Text.unescape (keptText ps)).length < (Text.unescape (writtenText ps)).length

theorem Compares.length_le {ps : List Piece} (h : Compares ps) :
    (Text.unescape (keptText ps)).length ≤ (Text.unescape (writtenText ps)).length := by
  cases hcut : cutsEscape ps with
  | false => rw [h.eq hcut]
  | true => exact Nat.le_of_lt (h.lt hcut)

/-- What is decoded alike in front of both changes nothing. -/
theorem Compares.of_front {ps qs : List Piece} (h : Compares ps) (s : Text)
    (hcuts : cutsEscape qs = cutsEscape ps)
    (hwritten : Text.unescape (writtenText qs) = s ++ Text.unescape (writtenText ps))
    (hkept : Text.unescape (keptText qs) = s ++ Text.unescape (keptText ps)) : Compares qs where
  eq hqs := by rw [hwritten, hkept, h.eq (hcuts ▸ hqs)]
  lt hqs := by
    have := h.lt (hcuts ▸ hqs)
    rw [hwritten, hkept, List.length_append, List.length_append]
    omega

/-- **A splice that cuts an escape leaves its line break**, and no other splice leaves anything. -/
theorem compares {ps : List Piece} (hps : HidesBreaks ps) (hk : (keptText ps).IsUnbroken) :
    Compares ps := by
  induction ps using cutsEscape_induction with
  | nil => exact ⟨fun _ ↦ rfl, fun h ↦ nomatch h⟩
  | lone => exact ⟨fun _ ↦ rfl, fun h ↦ nomatch h⟩
  | cut b ps ih =>
    have hb := hps b (by simp)
    have hpos : 0 < b.length := by
      have hall : ∀ b ∈ [['\r', '\n'], ['\r'], ['\n']], 0 < b.length := by decide
      exact hall b hb
    rw [keptText_cons_kept, keptText_cons_splice, Text.isUnbroken_cons] at hk
    have hle := (ih hps.tail.tail hk.2).length_le
    have hadded := (length_unescape_backslash hk.2).2
    have hwritten : (Text.unescape (writtenText (.kept '\\' :: .splice b :: ps))).length =
        b.length + (Text.unescape (writtenText ps)).length + 1 := by
      show (Text.unescape ('\\' :: '\\' :: (b ++ writtenText ps))).length = _
      rw [unescape_cut_splice hb, List.length_cons, List.length_append]
    refine ⟨(nomatch ·), fun _ ↦ ?_⟩
    rw [hwritten, keptText_cons_kept, keptText_cons_splice]
    omega
  | escape c ps ih =>
    rw [keptText_cons_kept, keptText_cons_kept, Text.isUnbroken_cons, Text.isUnbroken_cons] at hk
    exact (ih hps.tail.tail hk.2.2).of_front (Text.escapeValue c) (by rw [cutsEscape])
      (unescape_escape_of_unbroken hk.2.1 _) (unescape_escape_of_unbroken hk.2.1 _)
  | cons p ps hp ih =>
    have hcuts := cutsEscape_cons hp ps
    cases p with
    | kept c =>
      have hc : c ≠ '\\' := by
        rintro rfl
        exact hp rfl
      rw [keptText_cons_kept, Text.isUnbroken_cons] at hk
      exact (ih hps.tail hk.2).of_front [c] hcuts (Text.unescape_cons hc) (Text.unescape_cons hc)
    | splice b =>
      rw [keptText_cons_splice] at hk
      have hhead : (writtenText ps).head? ≠ some '\n' := head?_writtenText_ne hk rfl
      exact (ih hps.tail hk).of_front [] hcuts
        (unescape_splice (hps b List.mem_cons_self) hhead) rfl

/-- **What is decoded is the same with splices and without** exactly if none cuts an escape. -/
theorem unescape_writtenText_iff {ps : List Piece} (hps : HidesBreaks ps)
    (hk : (keptText ps).IsUnbroken) :
    Text.unescape (writtenText ps) = Text.unescape (keptText ps) ↔ cutsEscape ps = false := by
  have h := compares hps hk
  refine ⟨fun heq ↦ ?_, h.eq⟩
  by_contra hcut
  have hlt := h.lt (by simpa using hcut)
  rw [heq] at hlt
  exact Nat.lt_irrefl _ hlt

/-! ### The parts of a literal -/

/-- What stands between two bytes of a text. -/
theorem slice?_middle (s t u : Text) :
    Text.slice? (Text.size s) (Text.size (s ++ t)) (s ++ t ++ u) = some t := by
  have hle : Text.size s ≤ Text.size (s ++ t) := by simp
  have hsub : Text.size (s ++ t) - Text.size s = Text.size t := by simp
  rw [Text.slice?, if_pos hle, List.append_assoc, Text.split?_size_append, hsub]
  simp

/-- The value of a character literal stands between its first quote and its last character. -/
theorem decodeCharacter_quoted {front body : Text} (h : '\'' ∉ front) :
    decodeCharacter (front ++ '\'' :: (body ++ ['\''])) = Text.unescape body := by
  have hfront : Text.prefixSize (· != '\'') (front ++ '\'' :: (body ++ ['\''])) =
      Text.size front := by
    rw [Text.prefixSize, Text.takeWhile_ne h]
  have hsplit : front ++ '\'' :: (body ++ ['\'']) = (front ++ ['\'']) ++ body ++ ['\''] := by simp
  have hstart : Text.size front + 1 = Text.size (front ++ ['\'']) := by
    rw [Text.size_append]
    rfl
  have hstop : Text.size ((front ++ ['\'']) ++ body ++ ['\'']) - 1 =
      Text.size ((front ++ ['\'']) ++ body) := by
    rw [Text.size_append _ ['\'']]
    exact Nat.add_sub_cancel _ 1
  rw [decodeCharacter, if_pos (by simp)]
  simp only [hfront]
  rw [hstart, hsplit, hstop, slice?_middle]
  rfl

/-- So does that of a string, unless the string looks like a raw one. -/
theorem decodeString_quoted {front body : Text} (h : '"' ∉ front) (hraw : 'R' ∉ front) :
    decodeString (front ++ '"' :: (body ++ ['"'])) = Text.unescape body := by
  have hfront := Text.takeWhile_ne h (body ++ ['"'])
  have hlast : front.getLast? ≠ some 'R' := fun hR ↦ hraw (List.mem_of_getLast? hR)
  rw [decodeString]
  simp only [hfront, List.drop_left]
  rw [if_neg hlast, if_pos (by simp), List.dropLast_concat]

/-- A character that is kept is found among the pieces. -/
theorem exists_pieces_of_keptText {ps : List Piece} {front back : Text} {c : Char}
    (h : keptText ps = front ++ c :: back) :
    ∃ qs rs, ps = qs ++ .kept c :: rs ∧ keptText qs = front ∧ keptText rs = back := by
  obtain ⟨qs, rs, rfl, hqs, hrs⟩ := List.filterMap_eq_append_iff.1 h
  obtain ⟨ss, p, rs, rfl, hss, hp, hback⟩ := List.filterMap_eq_cons_iff.1 hrs
  have hnone : keptText ss = [] := List.filterMap_eq_nil_iff.2 hss
  cases p with
  | splice b => cases hp
  | kept d =>
    obtain rfl := Option.some.inj hp
    refine ⟨qs ++ ss, rs, by simp, ?_, hback⟩
    rw [unsplice_append_pieces, hnone, List.append_nil]
    exact hqs

/-- **The parts of a literal** that is accepted in full. -/
theorem pieces_of_accepted {quote : Char} {t : Text}
    (h : scanPieces false (scanQuoted quote) (pieces t) = .matched (Text.size t)) :
    ∃ ps qs, pieces t = ps ++ .kept quote :: (qs ++ [.kept quote]) ∧
      (keptText ps = [] ∨ keptText ps ∈ encodings) ∧ (keptText qs).IsUnbroken := by
  obtain ⟨m, hm, hsize, -⟩ := scanPieces_eq_matched_iff.1 h
  have hne : scanQuoted quote (keptText (pieces t)) ≠ .noMatch := by rw [hm]; simp
  obtain ⟨e, rest, he, hchars, hscan⟩ := scanQuoted_ne_noMatch hne
  obtain ⟨k, hk, rfl⟩ := after_eq_matched_iff.1 (hscan.symm.trans hm)
  obtain ⟨body, back, rfl, rfl, hbody⟩ := exists_body_of_matched hk
  have hfront : e.length + quote.utf8Size + Text.size (body ++ [quote]) =
      Text.size (e ++ quote :: (body ++ [quote])) := by
    rw [Text.size_append e, Text.size_cons, size_of_encoding he, Nat.add_assoc]
  have hchars : keptText (pieces t) = e ++ quote :: (body ++ [quote]) ++ back := by
    rw [hchars]
    simp
  obtain ⟨ps, c, rs, hps, hkept, -, hwritten⟩ := writtenSize_spec hchars (by simp)
  -- Nothing is left behind the last quote, not even a splice.
  have hcut : pieces t = (ps ++ [.kept c]) ++ rs := by rw [hps]; simp
  have hnil : writtenText rs = [] := by
    obtain ⟨ht, -, -⟩ := pieces_split hcut
    have hall := congrArg Text.size ht
    rw [hsize, hfront, hwritten, Text.size_append] at hall
    exact Text.size_eq_zero_iff.1 (by omega)
  obtain rfl : rs = [] := by
    cases rs with
    | nil => rfl
    | cons p rs => cases p <;> cases hnil
  rw [List.append_nil] at hcut
  have hlast : keptText ps ++ [c] = (e ++ quote :: body) ++ [quote] := by
    rw [unsplice_append_pieces] at hkept
    rw [List.append_assoc, List.cons_append]
    exact hkept
  obtain ⟨hkept, hc⟩ := List.append_inj' hlast rfl
  obtain rfl := List.singleton_inj.1 hc
  obtain ⟨ps, qs, rfl, rfl, rfl⟩ := exists_pieces_of_keptText hkept
  exact ⟨ps, qs, by rw [hcut]; simp, he, hbody⟩

/-- The quotes of a literal cut no escape. -/
theorem cutsEscape_append_quote {quote : Char} (hq : quote ≠ '\\') (ps : List Piece) :
    cutsEscape (ps ++ [.kept quote]) = cutsEscape ps := by
  have hp : Piece.kept quote ≠ .kept '\\' := by simpa using hq
  induction ps using cutsEscape_induction with
  | nil => exact cutsEscape_cons hp []
  | lone => rfl
  | cut b ps _ => rfl
  | escape c ps ih => rw [List.cons_append, List.cons_append, cutsEscape, ih, cutsEscape]
  | cons p ps hp ih => rw [List.cons_append, cutsEscape_cons hp, ih, cutsEscape_cons hp]

theorem cutsEscape_append {ps : List Piece} (hps : '\\' ∉ keptText ps) (qs : List Piece) :
    cutsEscape (ps ++ qs) = cutsEscape qs := by
  induction ps with
  | nil => rfl
  | cons p ps ih =>
    have hp : p ≠ .kept '\\' := by
      rintro rfl
      exact hps List.mem_cons_self
    rw [List.cons_append, cutsEscape_cons hp, ih fun h ↦ hps ?_]
    cases p with
    | kept c => exact List.mem_cons_of_mem c h
    | splice b => exact h

/-- **The value of a literal** depends on its splices if one cuts an escape. -/
theorem decode_accepted {quote : Char} {decode : Text → Text} {t : Text} (hslash : quote ≠ '\\')
    (hbreak : Text.isLineBreak quote = false) (hencodings : ∀ e ∈ encodings, quote ∉ e)
    (hdecode : ∀ front body : Text, quote ∉ front → 'R' ∉ front →
      decode (front ++ quote :: (body ++ [quote])) = Text.unescape body)
    (h : scanPieces false (scanQuoted quote) (pieces t) = .matched (Text.size t)) :
    decode t = decode (unsplice t) ↔ cutsEscape (pieces t) = false := by
  obtain ⟨ps, qs, hps, he, hqs⟩ := pieces_of_accepted h
  have hhides : HidesBreaks ps ∧ HidesBreaks qs := by
    have hall := hidesBreaks_pieces t
    rw [hps] at hall
    exact ⟨hall.of_subset fun p hp ↦ by simp [hp], hall.of_subset fun p hp ↦ by simp [hp]⟩
  -- In front of the first quote stands the encoding, with splices or without.
  have hkept : ∀ c, (∀ e ∈ encodings, c ∉ e) → c ∉ keptText ps := by
    intro c hc
    rcases he with he | he
    · rw [he]
      exact List.not_mem_nil
    · exact hc _ he
  have hwritten : ∀ c, c ≠ '\\' → Text.isLineBreak c = false → (∀ e ∈ encodings, c ∉ e) →
      c ∉ writtenText ps := by
    intro c hc hb hall hmem
    rcases mem_writtenText hhides.1 hmem with hmem | hmem | hmem
    · exact hkept c hall hmem
    · exact hc hmem
    · rw [hb] at hmem
      cases hmem
  have ht : decode t = Text.unescape (writtenText qs) := by
    rw [← hdecode _ _ (hwritten quote hslash hbreak hencodings)
      (hwritten 'R' (by decide) rfl (by decide)), ← writtenText_pieces t, hps]
    simp [Piece.text]
  have hchars : decode (unsplice t) = Text.unescape (keptText qs) := by
    rw [← hdecode _ _ (hkept quote hencodings) (hkept 'R' (by decide)), unsplice, hps]
    simp [unsplice_append_pieces]
  have hcuts : cutsEscape (pieces t) = cutsEscape qs := by
    rw [hps, cutsEscape_append (hkept '\\' (by decide)), cutsEscape_cons (by simpa using hslash),
      cutsEscape_append_quote hslash]
  rw [ht, hchars, hcuts]
  exact unescape_writtenText_iff hhides.2 hqs

/-- No two rules find the same kind of tokens. -/
theorem rule_unique {r r' : Rule Kind} (hr : r ∈ lexicon.rules) (hr' : r' ∈ lexicon.rules)
    (h : r.terminal = r'.terminal) : r = r' :=
  List.inj_on_of_nodup_map (f := Rule.terminal) (by decide) hr hr' h

/-- **When splices make no difference to the value of a literal.** A character literal, or a string
that is not raw, has the same value with its splices and without, exactly if none of them stands
behind the backslash of an escape. -/
theorem decode_unsplice_iff {r : Rule Kind} (hr : r ∈ lexicon.rules) {t : Text}
    (hkind : r.terminal = .characterLiteral ∨ r.terminal = .stringLiteral ∧ opensRaw t = false)
    (h : r.scan t = .matched (Text.size t)) :
    r.decode t = r.decode (unsplice t) ↔ cutsEscape (pieces t) = false := by
  rcases hkind with hkind | ⟨hkind, hraw⟩
  · obtain rfl : r = ⟨.characterLiteral, scanSpliced false (startsQuoted '\'') (scanQuoted '\''),
        decodeCharacter⟩ := rule_unique hr (by simp [lexicon]) hkind
    refine decode_accepted (by decide) rfl (by decide) (fun _ _ hq _ ↦ decodeCharacter_quoted hq) ?_
    rw [← plain_scanCharacter.scanSpliced_eq]
    exact h
  · obtain rfl : r = ⟨.stringLiteral, scanString, decodeString⟩ :=
      rule_unique hr (by simp [lexicon]) hkind
    refine decode_accepted (by decide) rfl (by decide) (fun _ _ ↦ decodeString_quoted) ?_
    rw [← scanString_of_not_opensRaw hraw]
    exact h

/-- Splices in the encoding of a string, and in front of an escape. -/
theorem decode_unsplice_string :
    let t : Text := ['u', '\\', '\n', '8', '"', 'a', '\\', '\r', '\n', '\\', 't', '"']
    decodeString t = decodeString (unsplice t) ∧ decodeString t = ['a', '\t'] := by
  intro t
  refine ⟨?_, by decide⟩
  exact (decode_unsplice_iff (r := ⟨.stringLiteral, scanString, decodeString⟩) (t := t)
    (by simp [lexicon]) (.inr ⟨rfl, by decide⟩) (by decide)).2 (by decide)

/-- **A splice in the middle of an escape** leaves its line break in the value. -/
theorem decode_cut_escape :
    let t : Text := ['\'', '\\', '\\', '\n', 'n', '\'']
    scanSpliced false (startsQuoted '\'') (scanQuoted '\'') t = .matched (Text.size t) ∧
      decodeCharacter t = ['\\', '\n', 'n'] ∧ decodeCharacter (unsplice t) = ['\n'] := by
  decide

end LexFront.Cpp
