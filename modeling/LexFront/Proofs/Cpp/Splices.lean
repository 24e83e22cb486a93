import LexFront.Proofs.Cpp.SplicedWindows

/-!
# Splices inside tokens

A splice inside a token is to be passed over. A text and its characters, the splices taken out, then
have the same tokens. That holds but for two things: the window that ends at a splice may have cut a
token short, and taking a splice out may make a raw string where there was none. Both show in the
tokens, so that the two runs agree exactly if neither happens.

Key facts:

* `summary_of_splices`: what a run over a spliced text comes to, and what its characters do.
* `splices_transparent_iff`: when splices make no difference.
* `operator_cut_short`: three points with a splice before the last one are three tokens.
-/

set_option autoImplicit false

namespace LexFront.Cpp

open Lexer (IsRead texts)

/-- A text ends with a backslash and a line break. -/
def EndsInSplice (t : Text) : Prop := ∃ b ∈ [['\r', '\n'], ['\r'], ['\n']], '\\' :: b <:+ t

instance (t : Text) : Decidable (EndsInSplice t) :=
  inferInstanceAs (Decidable (∃ b ∈ [['\r', '\n'], ['\r'], ['\n']], '\\' :: b <:+ t))

theorem isOpenEnded_of_not_endsInSplice {t : Text} (h : ¬ EndsInSplice t) :
    isOpenEnded (pieces t) = false := by
  by_contra hopen
  cases hlast : (pieces t).getLast? with
  | none => exact hopen (by rw [isOpenEnded, hlast]; rfl)
  | some p =>
    cases p with
    | kept c => exact hopen (by rw [isOpenEnded, hlast]; rfl)
    | splice b =>
      obtain ⟨ps, hps⟩ := List.getLast?_eq_some_iff.1 hlast
      refine h ⟨b, mem_of_splice (t := t) (by rw [hps]; simp), writtenText ps, ?_⟩
      rw [← writtenText_pieces t, hps, writtenText_append]
      simp [Piece.text]

/-- No token of a run is cut short by what follows it. -/
def IsUncut (xs : List (Lexeme Kind)) : Prop :=
  ∀ front x back, xs = front ++ .valid x :: back → x.isTrivia = false →
    isCutShort (unsplice x.text) (unsplice (texts back)) = false

theorem isUncut_nil : IsUncut [] := by
  intro front x back h
  simp at h

theorem isUncut_cons {y : Lexeme Kind} {xs : List (Lexeme Kind)} : IsUncut (y :: xs) ↔
    (∀ x, y = .valid x → x.isTrivia = false →
      isCutShort (unsplice x.text) (unsplice (texts xs)) = false) ∧ IsUncut xs := by
  constructor
  · intro h
    exact ⟨fun x hx ↦ h [] x xs (by rw [hx]; rfl),
      fun front x back hxs ↦ h (y :: front) x back (by rw [hxs]; rfl)⟩
  · rintro ⟨hy, hxs⟩ front x back h
    cases front with
    | nil =>
      obtain ⟨rfl, rfl⟩ := List.cons.inj h
      exact hy x rfl
    | cons z front =>
      obtain ⟨-, h⟩ := List.cons.inj h
      exact hxs front x back h

/-- **What a run over a spliced text comes to** is what its characters do, if no token is cut short
and no raw string opens among the characters; if the tokens are the same, neither happens. -/
theorem summary_of_splices {t : Text} {xs : List (Lexeme Kind)} (h : IsRead lexicon.rules t xs)
    (hfree : IsSpliceFree (unsplice t)) (hend : ¬ EndsInSplice t) (hraw : ¬ HasRawOpener t) :
    (IsUncut xs ∧ (munch (unsplice t)).raw = false →
      significant xs = (munch (unsplice t)).tokens ∧
        xs.any Lexeme.isInvalid = (munch (unsplice t)).invalid) ∧
    (significant xs = (munch (unsplice t)).tokens →
      IsUncut xs ∧ (munch (unsplice t)).raw = false) := by
  induction h with
  | nil =>
    rw [unsplice_nil, munch_nil]
    exact ⟨fun _ ↦ ⟨rfl, rfl⟩, fun _ ↦ ⟨isUncut_nil, rfl⟩⟩
  | @cons t w v rest x xs ht hw hwindow hreads hx hread ih =>
    subst ht
    have hsuffix : rest <:+ w ++ v := ⟨x.text, hx.symm⟩
    obtain ⟨hrest, hmirrors⟩ := mirrors_of_reads hw hwindow hreads hx hfree
      (isOpenEnded_of_not_endsInSplice hend) hraw
    have hend' : ¬ EndsInSplice rest := by
      rintro ⟨b, hb, hs⟩
      exact hend ⟨b, hb, hs.trans hsuffix⟩
    obtain ⟨hsame, honly⟩ := ih (hfree.of_infix hrest.isInfix) hend'
      (fun h ↦ hraw (h.of_infix hsuffix.isInfix))
    rw [isUncut_cons, hread.texts_eq]
    cases hmirrors with
    | @invalid i hm =>
      have hskip : significant (.invalid i :: xs) = significant xs := rfl
      have huncut : ∀ y : Token Kind, Lexeme.invalid i = .valid y → y.isTrivia = false →
          isCutShort (unsplice y.text) (unsplice rest) = false := fun y hy ↦ by cases hy
      rw [hm, hskip]
      constructor
      · rintro ⟨⟨-, hxs⟩, hr⟩
        exact ⟨(hsame ⟨hxs, hr⟩).1, rfl⟩
      · intro h
        exact ⟨⟨huncut, (honly h).1⟩, (honly h).2⟩
    | @valid x hm hcut =>
      have hsound : (Lexeme.valid x :: xs).any Lexeme.isInvalid = xs.any Lexeme.isInvalid := rfl
      have huncut : ∀ y : Token Kind, Lexeme.valid x = .valid y → y.isTrivia = false →
          isCutShort (unsplice y.text) (unsplice rest) = false := fun y hy ↦ by
        obtain rfl := Lexeme.valid.inj hy
        exact hcut
      have htokens : significant (.valid x :: xs) = (munch (unsplice (w ++ v))).tokens ↔
          significant xs = (munch (unsplice rest)).tokens := by
        rw [significant_valid, hm, tokens_token, ← Token.isTrivia]
        split <;> simp
      rw [htokens, hm, raw_token, invalid_token, hsound]
      constructor
      · rintro ⟨⟨-, hxs⟩, hr⟩
        exact hsame ⟨hxs, hr⟩
      · intro h
        exact ⟨⟨huncut, (honly h).1⟩, (honly h).2⟩
    | @astray x htrivia hwhy hne =>
      constructor
      · rintro ⟨⟨hcut, -⟩, hr⟩
        rcases hwhy with hwhy | hwhy
        · cases hwhy.symm.trans (hcut x rfl htrivia)
        · cases hwhy.symm.trans hr
      · intro h
        rw [significant_valid, if_neg (by simp [htrivia])] at h
        exact absurd h.symm (hne _)

/-! ### Two runs -/

/-- What is no splice stands in the text. -/
theorem mem_of_mem_unsplice {c : Char} {t : Text} (h : c ∈ unsplice t) : c ∈ t := by
  rw [unsplice, keptText, List.mem_filterMap] at h
  obtain ⟨p, hp, hc⟩ := h
  cases p with
  | splice b => cases hc
  | kept d =>
    obtain rfl := Option.some.inj hc
    rw [← writtenText_pieces t, writtenText]
    exact List.mem_flatMap.2 ⟨_, hp, List.mem_singleton_self _⟩

/-- Nothing is cut short in a text without points, percent signs and digits. -/
theorem isUncut_of_isRead {rules : List (Rule Kind)} {t : Text} {xs : List (Lexeme Kind)}
    (h : IsRead rules t xs) (ht : ∀ c ∈ t, c ≠ '.' ∧ c ≠ '%' ∧ c.isDigit = false) :
    IsUncut xs := by
  rintro front x back rfl -
  by_contra hcut
  have hmem : ∀ c ∈ unsplice x.text ++ unsplice (texts back),
      c ≠ '.' ∧ c ≠ '%' ∧ c.isDigit = false := by
    intro c hc
    refine ht c ?_
    rw [← h.texts_eq, Lexer.texts_append, Lexer.texts_cons]
    rcases List.mem_append.1 hc with hc | hc
    · exact List.mem_append_right _ (List.mem_append_left _ (mem_of_mem_unsplice hc))
    · exact List.mem_append_right _ (List.mem_append_right _ (mem_of_mem_unsplice hc))
  rcases isCutShort_iff.1 (by simpa using hcut) with ⟨hx, -⟩ | ⟨hx, -⟩ | ⟨hs, -⟩
  · exact (hmem '.' (by simp [hx])).1 rfl
  · exact (hmem '%' (by simp [hx])).2.1 rfl
  · obtain ⟨c, r, hr, hc⟩ := Numeral.starts_spec hs
    obtain ⟨hpoint, -, hdigit⟩ := hmem c (by simp [hr])
    rcases hc with hc | ⟨hc, -⟩
    · cases hc.symm.trans hdigit
    · exact hpoint hc

/-- **When splices make no difference.** A text and its characters have the same tokens, and
something invalid both or neither, exactly if no token of the text is cut short, and none of the
characters begins a raw string. -/
theorem splices_transparent_iff (preferences : LexicalPreferences) (unit : String)
    {feed feed' : Feed} {t : Text} {unitLimit lineLimit maxLength maxCount : Nat}
    (ht : feed.Delivers t) (ht' : feed'.Delivers (unsplice t)) (hraw : ¬ HasRawOpener t)
    (hend : ¬ EndsInSplice t) (hfree : IsSpliceFree (unsplice t)) :
    let run := ((Lexer.ofDecoder lexicon preferences unit { feed, limit := unitLimit }
      lineLimit).withLimits maxLength maxCount).lexemes
    let run' := ((Lexer.ofDecoder lexicon preferences unit { feed := feed', limit := unitLimit }
      lineLimit).withLimits maxLength maxCount).lexemes
    (∀ x ∈ run, x.isOfInput = true) → (∀ x ∈ run', x.isOfInput = true) →
      ((significant run = significant run' ∧
          ((∃ x ∈ run, x.isInvalid = true) ↔ ∃ x ∈ run', x.isInvalid = true)) ↔
        IsUncut run ∧ ∀ x ∈ run', opensRaw x.text = false) := by
  intro run run' hrun hrun'
  have hread : IsRead lexicon.rules t run :=
    Lexer.isRead_of_delivers lexicon preferences unit ht hrun
  have hread' : IsRead lexicon.rules (unsplice t) run' :=
    Lexer.isRead_of_delivers lexicon preferences unit ht' hrun'
  obtain ⟨hsame, honly⟩ := summary_of_splices hread hfree hend hraw
  rw [← summary_of_isRead hread' hfree] at hsame honly
  have hraw' : (summaryOf run').raw = false ↔ ∀ x ∈ run', opensRaw x.text = false := by
    simp [summaryOf]
  have hany : (∃ x ∈ run, x.isInvalid = true) ↔ run.any Lexeme.isInvalid = true :=
    List.any_eq_true.symm
  have hany' : (∃ x ∈ run', x.isInvalid = true) ↔ (summaryOf run').invalid = true :=
    List.any_eq_true.symm
  rw [← hraw', hany, hany']
  constructor
  · rintro ⟨htokens, -⟩
    exact honly htokens
  · intro h
    obtain ⟨htokens, hinvalid⟩ := hsame h
    exact ⟨htokens, by rw [hinvalid]⟩

/-- A keyword and a comment with splices in them. -/
theorem splices_transparent_comment :
    let t : Text := ['i', 'n', '\\', '\n', 't', '/', '\\', '\r', '\n', '/', 'x']
    let run := (Lexer.ofDecoder lexicon {} "u" { feed := .ofBytes (Text.encode t) }).lexemes
    let run' := (Lexer.ofDecoder lexicon {} "u"
      { feed := .ofBytes (Text.encode (unsplice t)) }).lexemes
    significant run = significant run' ∧
      ((∃ x ∈ run, x.isInvalid = true) ↔ ∃ x ∈ run', x.isInvalid = true) := by
  intro t run run'
  have hplain : ∀ c ∈ t, c ≠ '.' ∧ c ≠ '%' ∧ c.isDigit = false := by simp [t, Char.isDigit]
  have hquote : '"' ∉ t := by decide
  have hraw : ¬ HasRawOpener t := not_hasRawOpener_of_not_mem hquote
  have hend : ¬ EndsInSplice t := by
    rintro ⟨b, hb, hs⟩
    revert b
    decide
  have hfree : IsSpliceFree (unsplice t) := isSpliceFree_of_not_mem (by decide)
  have hshort : ∀ {t : Text} {feed : Feed}, feed.Delivers t → Text.size t ≤ 11 → t.length ≤ 11 →
      ∀ x ∈ (Lexer.ofDecoder lexicon {} "u" { feed }).lexemes, x.isOfInput = true := by
    intro t feed ht hsize hlength
    exact Lexer.isOfInput_of_delivers lexicon {} "u" ht (Nat.le_trans hsize (by decide))
      (Text.fitsLines_of_size_le (Nat.le_trans hsize (by decide : 11 ≤ Limits.lineLength)))
      (Nat.le_trans hsize (by decide : 11 ≤ Limits.tokenLength))
      (Nat.le_trans hlength (by decide : 11 ≤ Limits.tokenCount))
  have ht := Feed.delivers_ofBytes t
  have ht' := Feed.delivers_ofBytes (unsplice t)
  have hrun := hshort ht (by decide) (by decide)
  have hrun' := hshort ht' (by decide) (by decide)
  have hread : IsRead lexicon.rules t run := Lexer.isRead_of_delivers lexicon {} "u" ht hrun
  have hread' : IsRead lexicon.rules (unsplice t) run' :=
    Lexer.isRead_of_delivers lexicon {} "u" ht' hrun'
  refine (splices_transparent_iff {} "u" ht ht' hraw hend hfree hrun hrun').2 ⟨?_, fun x hx ↦ ?_⟩
  · exact isUncut_of_isRead hread hplain
  · refine opensRaw_of_not_hasRawOpener (not_hasRawOpener_of_not_mem fun hq ↦ hquote ?_)
    have hmem : '"' ∈ texts run' := List.mem_flatMap.2 ⟨x, hx, hq⟩
    rw [hread'.texts_eq] at hmem
    exact mem_of_mem_unsplice hmem

/-- **A punctuator is cut short** if a splice stands before the last of its three points. -/
theorem operator_cut_short :
    let t : Text := ['.', '.', '\\', '\n', '.']
    let run := (Lexer.ofDecoder lexicon {} "u" { feed := .ofBytes (Text.encode t) }).lexemes
    let run' := (Lexer.ofDecoder lexicon {} "u"
      { feed := .ofBytes (Text.encode (unsplice t)) }).lexemes
    (∀ x ∈ run ++ run', x.isOfInput = true) ∧ ¬ HasRawOpener t ∧ ¬ EndsInSplice t ∧
      IsSpliceFree (unsplice t) ∧
      significant run = [(.operator, ['.']), (.operator, ['.']), (.operator, ['.'])] ∧
      significant run' = [(.operator, ['.', '.', '.'])] := by
  refine ⟨by decide +kernel, not_hasRawOpener_of_not_mem (by decide), ?_,
    isSpliceFree_of_not_mem (by decide), by decide +kernel, by decide +kernel⟩
  rintro ⟨b, hb, hs⟩
  revert b
  decide

end LexFront.Cpp
