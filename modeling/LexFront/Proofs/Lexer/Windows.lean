import LexFront.Proofs.Lexer.Endings
import LexFront.Proofs.Lexer.WholeText

/-!
# Lexemes found in windows

Where the rules of a lexicon are not stable, what the lexer hands out depends on where its windows
end. `IsRead rules t xs` says what is left: each lexeme was found in some window of what was left of
the text, by the longest match of that window. It forgets how many lines the lexer took, its limits
and its locations, and keeps what the rules have to do with the lexemes.

Key facts:

* `IsRead.texts_eq`: the lexemes are, put together, the text.
* `IsUndisturbed.isRead`: so it is for every run that no limit and no failure of the source
  disturbs.
* `HasRoom.isOfInput_lexemes`: a run that is short enough is not disturbed by a limit.
* `Finds.shortest`: no window goes further than the rules ask for.
* `Reads.whole`: if the rules are stable, a lexeme was found in all of what was left.
-/

set_option autoImplicit false

namespace LexFront

/-- Whether it is the input that is at fault, rather than a limit or the source. -/
def LexicalError.isOfInput : LexicalError → Bool
  | .unrecognizedInput | .unterminated _ => true
  | _ => false

/-- Whether a lexeme was handed out for what the input is. -/
def Lexeme.isOfInput {T : Type} (x : Lexeme T) : Bool := x.error?.all LexicalError.isOfInput

/-- Only one line break can be torn. -/
theorem Terminator.eq_of_text_append {t : Terminator} {s r : Text} (h : t.text = s ++ r)
    (hs : s ≠ []) (hr : r ≠ []) : s = ['\r'] ∧ r = ['\n'] := by
  obtain ⟨c, s, rfl⟩ := List.exists_cons_of_ne_nil hs
  obtain ⟨d, r, rfl⟩ := List.exists_cons_of_ne_nil hr
  cases t <;> cases s <;> simp_all [Terminator.text, eq_comm]

namespace Line

/-- **No window ends inside a line**: it ends with a line break that is not torn, and there is none
in the text of a line. -/
theorem Consecutive.raw_prefix_of_isWindow {unit : String} {n : Nat} {l : Line} {ls : List Line}
    (h : Consecutive unit n (l :: ls)) {w v : Text} (ht : l.raw ++ ls.flatMap raw = w ++ v)
    (hw : w ≠ []) (hwindow : Lexicon.IsWindow w v) : l.raw <+: w := by
  rcases List.append_eq_append_iff.1 ht with ⟨s, rfl, -⟩ | ⟨r, hline, rfl⟩
  · exact List.prefix_append l.raw s
  by_cases hr : r = []
  · simp [hline, hr]
  exfalso
  obtain ⟨b, hb, hbreak⟩ := hwindow.closed (by simp [hr])
  have hinside : ¬ w <+: l.text := by
    intro hfront
    have hu : l.text.IsUnbroken := by cases h <;> assumption
    rw [hu b (hfront.subset (List.mem_of_getLast? hb))] at hbreak
    cases hbreak
  rcases List.append_eq_append_iff.1 hline with ⟨s, rfl, hs⟩ | ⟨s, hs, -⟩
  · have hne : s ≠ [] := by
      rintro rfl
      exact hinside (by simp)
    obtain ⟨rfl, rfl⟩ := l.terminator.eq_of_text_append hs hne hr
    exact hwindow.seam ⟨List.getLast?_concat, rfl⟩
  · exact hinside ⟨s, hs.symm⟩

end Line

namespace Lexer

variable {T : Type}

/-- How a lexeme is found in a window `w` of a text that goes on with `v`. -/
inductive Reads (rules : List (Rule T)) (w v : Text) : Lexeme T → Prop where
  | gap {i : InvalidToken} {back : Text} : Lexicon.longestMatch rules w = .noMatch →
      w = i.text ++ back → Lexicon.unrecognizedSize rules w = Text.size i.text →
      Reads rules w v (.invalid i)
  | token {x : Token T} {i : Nat} {r : Rule T} {back : Text} :
      Lexicon.longestMatch rules w = .matched i (Text.size x.text) → w = x.text ++ back →
      rules[i]? = some r → x.terminal = r.terminal → Reads rules w v (.valid x)
  /-- A rule asks for more, and nothing is left. -/
  | unterminated {i : InvalidToken} {k : Nat} : Lexicon.longestMatch rules w = .needMore k →
      v = [] → i.text = w → Reads rules w v (.invalid i)

/-- Each lexeme is found in a window of what is left of the text. -/
inductive IsRead (rules : List (Rule T)) : Text → List (Lexeme T) → Prop where
  | nil : IsRead rules [] []
  | cons {t w v rest : Text} {x : Lexeme T} {xs : List (Lexeme T)} : t = w ++ v → w ≠ [] →
      Lexicon.IsWindow w v → Reads rules w v x → t = x.text ++ rest → IsRead rules rest xs →
      IsRead rules t (x :: xs)

theorem IsRead.texts_eq {rules : List (Rule T)} {t : Text} {xs : List (Lexeme T)}
    (h : IsRead rules t xs) : texts xs = t := by
  induction h with
  | nil => rfl
  | cons _ _ _ _ hx _ ih => rw [texts_cons, ih, hx]

variable [Terminal T]

/-- What a lexer has in sight when a call begins: its window, or the next line if that is empty. -/
inductive Fills : Lexer T → Lexer T → Prop where
  | window {l : Lexer T} : l.window ≠ [] → Fills l l
  | line {l l' : Lexer T} : l.window = [] → l.pull = some l' → Fills l l'

omit [Terminal T] in
theorem Fills.pulls {l l' : Lexer T} (h : Fills l l') : Pulls l l' := by
  cases h with
  | window _ => exact .refl
  | line _ hp => exact .step hp .refl

omit [Terminal T] in
theorem Fills.eq_of_window {l l' : Lexer T} (h : Fills l l') (hw : l.window ≠ []) : l' = l := by
  cases h with
  | window _ => rfl
  | line hnil _ => exact absurd hnil hw

omit [Terminal T] in
theorem Fills.spec {l l' : Lexer T} (h : Fills l l') (hl : l.IsFed) (hshow : l.Shows) :
    l'.IsFed ∧ l'.window ≠ [] ∧ l'.Shows := by
  cases h with
  | window hw => exact ⟨hl, hw, hshow⟩
  | line _ hp => exact ⟨(hl.pull hp).1, (hl.pull hp).2, hl.shows_pull hp⟩

/-- A call that hands out a lexeme classifies what is in sight. -/
theorem exists_classifies {l : Lexer T} (hl : l.IsFed) (live : l.IsLive) (hne : l.pending ≠ []) :
    ∃ l', Fills l l' ∧ Classifies l' l.next := by
  have hsteps := steps_next hl
  generalize l.next = p at hsteps ⊢
  cases hsteps with
  | finished hf => rw [live.finished] at hf; cases hf
  | halted _ hh => rw [live.halted] at hh; cases hh
  | fault _ hw hlines _ => simp [pending, LineStream.pending, hw, hlines] at hne
  | exhausted _ hw hlines _ => simp [pending, LineStream.pending, hw, hlines] at hne
  | filled _ hw hc => exact ⟨l, .window hw, hc⟩
  | @empty l' _ _ hw hpull hc => exact ⟨l', .line hw hpull, hc⟩

omit [Terminal T] in
/-- A window that shows something of the next line shows all of it. -/
theorem IsFed.pull_prefix {l l' : Lexer T} (hl : l.IsFed) (hp : l.pull = some l') {u v : Text}
    (hu : u ≠ []) (ht : l.pending = l.window ++ u ++ v)
    (hwindow : Lexicon.IsWindow (l.window ++ u) v) : l'.window <+: l.window ++ u := by
  obtain ⟨line, lines, htakes, rfl⟩ := pull_eq_some hp
  obtain ⟨n, hn⟩ := hl
  rw [htakes.lines] at hn
  rw [pending, LineStream.pending, htakes.lines, List.append_assoc] at ht
  exact (List.prefix_append_right_inj l.window).2
    (hn.raw_prefix_of_isWindow (List.append_cancel_left ht) hu (hwindow.suffix hu))

/-- How a lexeme is found from a window on: in the window of `l'`, which has taken more lines if a
rule asked for them. -/
structure Finds (l : Lexer T) (p : Lexeme T × Lexer T) (l' : Lexer T) : Prop where
  pulls : Pulls l l'
  window_ne_nil : l'.window ≠ []
  shows : l'.Shows
  cuts : l'.Cuts p
  reads : Reads l.lexicon.rules l'.window l'.lines.pending p.1
  unrecognized : p.1.error? = some .unrecognizedInput ↔
    Lexicon.longestMatch l.lexicon.rules l'.window = .noMatch
  stays : (∀ k, Lexicon.longestMatch l.lexicon.rules l.window ≠ .needMore k) → l' = l
  /-- No less would have done: in every window that goes less far a rule asks for more. -/
  shortest : ∀ u v, l.pending = l.window ++ u ++ v → Lexicon.IsWindow (l.window ++ u) v →
    l'.window <+: l.window ++ u ∨
      ∃ k, Lexicon.longestMatch l.lexicon.rules (l.window ++ u) = .needMore k
  decodes : ∀ y, p.1 = .valid y →
    ∃ r ∈ l.lexicon.rules, y.terminal = r.terminal ∧ y.value = r.decode y.text

omit [Terminal T] in
/-- A lexeme may be found in what is in sight, with no more lines. -/
theorem Finds.self {l : Lexer T} {p : Lexeme T × Lexer T} (hw : l.window ≠ [])
    (hshow : l.Shows) (hcuts : l.Cuts p)
    (hreads : Reads l.lexicon.rules l.window l.lines.pending p.1)
    (hunrecognized : p.1.error? = some .unrecognizedInput ↔
      Lexicon.longestMatch l.lexicon.rules l.window = .noMatch)
    (hdecodes : ∀ y, p.1 = .valid y →
      ∃ r ∈ l.lexicon.rules, y.terminal = r.terminal ∧ y.value = r.decode y.text) :
    l.Finds p l where
  pulls := .refl
  window_ne_nil := hw
  shows := hshow
  cuts := hcuts
  reads := hreads
  unrecognized := hunrecognized
  stays := fun _ ↦ rfl
  shortest := fun u _ _ _ ↦ .inl (List.prefix_append l.window u)
  decodes := hdecodes

theorem Classifies.exists_finds {l : Lexer T} {p : Lexeme T × Lexer T} (h : Classifies l p)
    (hl : l.IsFed) (hw : l.window ≠ []) (hshow : l.Shows) (hx : p.1.isOfInput = true) :
    ∃ l', l.Finds p l' := by
  induction h with
  | full _ => cases hx
  | @unrecognized l _ hm =>
    obtain ⟨front, back, hfront, hn, -⟩ := Lexicon.unrecognizedSize_spec l.lexicon.rules hm hw
    have hcut := cut_size_append front back
    rw [← hfront, ← hn] at hcut
    have hreads : Reads l.lexicon.rules l.window l.lines.pending
        (l.reject (Lexicon.unrecognizedSize l.lexicon.rules l.window) .unrecognizedInput).1 :=
      .gap hm (append_of_cut _ l.window).symm
        (hn.trans (congrArg (fun p ↦ Text.size p.1) hcut.symm))
    have hcuts := cuts_reject (Lexicon.unrecognizedSize_pos l.lexicon.rules hw) hw
      .unrecognizedInput
    exact ⟨l, .self hw hshow hcuts hreads (iff_of_true rfl hm) fun _ hy ↦ by cases hy⟩
  | @matched l i n r _ hm hr =>
    obtain ⟨-, hpos, hb⟩ := Lexicon.scan_of_longestMatch_eq_matched hm
    obtain ⟨front, back, hfront, hn⟩ := Text.isBoundary_iff.1 hb
    have hcut := cut_size_append front back
    rw [← hfront, ← hn] at hcut
    have hcuts := cuts_accept (r := r) hpos hw
    rw [accept] at hx hcuts ⊢
    split at hx
    · cases hx
    · next hlong =>
      rw [if_neg hlong, hcut] at hcuts ⊢
      refine ⟨l, .self hw hshow hcuts (.token (hn ▸ hm) hfront hr rfl)
        (by simp [Lexeme.error?, hm]) fun y hy ↦ ?_⟩
      obtain rfl := Lexeme.valid.inj hy
      exact ⟨r, List.mem_of_getElem? hr, rfl, rfl⟩
  | overlong _ _ _ => cases hx
  | @unterminated l i _ hm _ hlines =>
    have hv : l.lines.pending = [] := by rw [LineStream.pending, hlines, List.flatMap_nil]
    have hcut := cut_size_append l.window []
    rw [List.append_nil] at hcut
    exact ⟨l, .self hw hshow (cuts_rejectAll hw _)
      (.unterminated hm hv (congrArg Prod.fst hcut))
      (by simp [Lexeme.error?, rejectAll, reject, hm]) fun _ hy ↦ by cases hy⟩
  | @more l l' i p _ hm hsize hp _ ih =>
    obtain ⟨hl', hw'⟩ := hl.pull hp
    obtain ⟨l'', h⟩ := ih hl' hw' (hl.shows_pull hp) hx
    obtain ⟨-, -, hlexicon, -⟩ := (Pulls.step hp .refl).frame
    exact ⟨l'', {
      pulls := .step hp h.pulls
      window_ne_nil := h.window_ne_nil
      shows := h.shows
      cuts := h.cuts
      reads := hlexicon ▸ h.reads
      unrecognized := hlexicon ▸ h.unrecognized
      stays := fun hk ↦ absurd hm (hk i)
      shortest := fun u v hpending hwindow ↦ by
        by_cases hu : u = []
        · exact .inr ⟨i, by rw [hu, List.append_nil, hm]⟩
        · obtain ⟨r, hr⟩ := hl.pull_prefix hp hu hpending hwindow
          rw [← hr, ← hlexicon]
          rw [← hr] at hpending hwindow
          exact h.shortest r v ((pending_of_pull hp).trans hpending) hwindow
      decodes := hlexicon ▸ h.decodes }⟩

/-- Behind a lexeme that was handed out for what the input is the lexer goes on, with less input. -/
theorem exists_cut_of_isOfInput {l : Lexer T} (hl : l.IsFed) (live : l.IsLive)
    (hne : l.pending ≠ []) (hx : l.next.1.isOfInput = true) :
    ∃ l', Pulls l l' ∧ l'.Cuts l.next ∧ l.next.2.pending.length < l.pending.length ∧
      l.next.2.IsFed ∧ l.next.2.IsLive := by
  obtain ⟨l', hpulls, hcuts, -, hhalted⟩ := exists_cut_of_next hl live hne
  obtain ⟨hpending, -, -, -, -, -, hfinished, -, -⟩ := hpulls.frame
  refine ⟨l', hpulls, hcuts, ?_, ?_, ⟨?_, ?_⟩⟩
  · have hleft := congrArg List.length (hcuts.pending.trans hpending)
    have hpos := List.length_pos_iff.2 hcuts.text_ne_nil
    rw [List.length_append] at hleft
    omega
  · exact hcuts.isFed (hpulls.preserves (fun _ _ hm hp ↦ (hm.pull hp).1) hl)
  · exact hcuts.finished.trans (hfinished.trans live.finished)
  · rcases hhalted with hh | hh
    · exact hh.trans live.halted
    · rw [Lexeme.isOfInput, hh] at hx
      cases hx

/-! ### Undisturbed runs -/

/-- A lexer that hands out nothing but what its input is. -/
structure IsUndisturbed (l : Lexer T) : Prop where
  fed : l.IsFed
  live : l.IsLive
  shows : l.Shows
  ofInput : ∀ x ∈ l.lexemes, x.isOfInput = true

/-- **An undisturbed lexer finds its next lexeme in a window**, and is undisturbed behind it. -/
theorem IsUndisturbed.next {l : Lexer T} (h : l.IsUndisturbed) {x : Lexeme T} {xs : List (Lexeme T)}
    (hxs : l.lexemes = x :: xs) : ∃ l₀ l', Fills l l₀ ∧ l₀.Finds l.next l' ∧ l.next.1 = x ∧
      l.next.2.IsUndisturbed ∧ l.next.2.lexemes = xs := by
  obtain ⟨-, hnext, hend, hrest⟩ := next_of_lexemes_cons hxs
  have hx : l.next.1.isOfInput = true := hnext ▸ h.ofInput x (by simp [hxs])
  have hne : l.pending ≠ [] := by
    intro hp
    have hcalls := h.live.calls h.fed
    have hnil := text_next_of_pending_nil h.fed hp
    rw [← hnext] at hend
    generalize l.next = p at hcalls hnil hend hx
    cases hcalls with
    | ended _ => exact hend rfl
    | failed _ he _ => simp [Lexeme.isOfInput, Lexeme.error?, he, LexicalError.isOfInput] at hx
    | lexeme hne => exact hne hnil
  obtain ⟨l₀, hfills, hc⟩ := exists_classifies h.fed h.live hne
  obtain ⟨hl₀, hw₀, hshow₀⟩ := hfills.spec h.fed h.shows
  obtain ⟨l', hfinds⟩ := hc.exists_finds hl₀ hw₀ hshow₀ hx
  obtain ⟨-, -, -, -, hfed, hlive⟩ := exists_cut_of_isOfInput h.fed h.live hne hx
  refine ⟨l₀, l', hfills, hfinds, hnext, ⟨hfed, hlive, hfinds.cuts.shows hfinds.shows, ?_⟩, hrest⟩
  rw [hrest]
  exact fun y hy ↦ h.ofInput y (by rw [hxs]; exact List.mem_cons_of_mem x hy)

/-- What is left of an undisturbed run is one. -/
theorem IsUndisturbed.after {l : Lexer T} (h : l.IsUndisturbed) {front back : List (Lexeme T)}
    (hxs : l.lexemes = front ++ back) :
    (l.after front.length).IsUndisturbed ∧ (l.after front.length).lexemes = back := by
  induction front generalizing l with
  | nil => exact ⟨h, hxs⟩
  | cons x front ih =>
    obtain ⟨-, -, -, -, -, h', hxs'⟩ := h.next hxs
    rw [List.length_cons, (after_succ l _).2]
    exact ih h' hxs'

omit [Terminal T] in
/-- What is pending is handed out, and the rest of it is pending then. -/
theorem Finds.frame {l l₀ l' : Lexer T} {p : Lexeme T × Lexer T} (h : l₀.Finds p l')
    (hfills : Fills l l₀) : p.1.text ++ p.2.pending = l.pending ∧
      l'.window ++ l'.lines.pending = l.pending ∧ p.2.lexicon = l.lexicon ∧
      l₀.lexicon = l.lexicon ∧ p.2.lines.ending = l.lines.ending := by
  obtain ⟨hpending₀, -, hlexicon₀, -, -, -, -, -, hending₀⟩ := hfills.pulls.frame
  obtain ⟨hpending, -, hlexicon, -, -, -, -, -, hending⟩ := h.pulls.frame
  refine ⟨h.cuts.pending.trans (hpending.trans hpending₀), hpending.trans hpending₀,
    h.cuts.lexicon.trans (hlexicon.trans hlexicon₀), hlexicon₀, ?_⟩
  rw [h.cuts.lines, hending, hending₀]

/-- The window that an undisturbed lexer finds its next lexeme in. -/
theorem IsUndisturbed.exists_reads {l : Lexer T} (h : l.IsUndisturbed) {x : Lexeme T}
    {xs : List (Lexeme T)} (hxs : l.lexemes = x :: xs) :
    ∃ w v, l.pending = w ++ v ∧ w ≠ [] ∧ Lexicon.IsWindow w v ∧ Reads l.lexicon.rules w v x ∧
      (x.error? = some .unrecognizedInput ↔
        Lexicon.longestMatch l.lexicon.rules w = .noMatch) := by
  obtain ⟨l₀, l', hfills, hfinds, hnext, -, -⟩ := h.next hxs
  obtain ⟨-, hpending, -, hlexicon₀, -⟩ := hfinds.frame hfills
  have hreads := hfinds.reads
  have hunrecognized := hfinds.unrecognized
  rw [hnext, hlexicon₀] at hreads hunrecognized
  exact ⟨l'.window, l'.lines.pending, hpending.symm, hfinds.window_ne_nil,
    hfinds.shows hfinds.window_ne_nil, hreads, hunrecognized⟩

/-- **Every undisturbed run finds its lexemes in windows**, and the source has not failed. -/
theorem IsUndisturbed.isRead {l : Lexer T} (h : l.IsUndisturbed) :
    IsRead l.lexicon.rules l.pending l.lexemes ∧ l.lines.ending = none := by
  generalize hxs : l.lexemes = xs
  induction xs generalizing l with
  | nil =>
    have hend : l.next.1 = .endOfInput := by
      by_contra hend
      rw [lexemes_of_next hend] at hxs
      cases hxs
    rcases h.live.next h.fed with ⟨-, hp, hnone⟩ | ⟨⟨e, he⟩, -⟩ | ⟨hne, -⟩
    · rw [hp]
      exact ⟨.nil, hnone⟩
    · rw [hend] at he
      cases he
    · exact absurd hend hne
  | cons x xs ih =>
    obtain ⟨w, v, hpending, hw, hwindow, hreads, -⟩ := h.exists_reads hxs
    obtain ⟨l₀, l', hfills, hfinds, hnext, h', hxs'⟩ := h.next hxs
    obtain ⟨hleft, -, hlexicon, -, hending⟩ := hfinds.frame hfills
    obtain ⟨hread, hnone⟩ := ih h' hxs'
    rw [hlexicon] at hread
    rw [hnext] at hleft
    exact ⟨.cons hpending hw hwindow hreads hleft.symm hread, hending ▸ hnone⟩

/-- What is pending after some lexemes is what the lexemes behind them read. -/
theorem IsUndisturbed.pending_after {l : Lexer T} (h : l.IsUndisturbed)
    {front back : List (Lexeme T)} (hxs : l.lexemes = front ++ back) :
    (l.after front.length).pending = texts back := by
  obtain ⟨hafter, hback⟩ := h.after hxs
  rw [← hafter.isRead.1.texts_eq, hback]

/-! ### Behind an unrecognized stretch -/

/-- How the lexeme behind an unrecognized stretch is found: some rule answers in `w`, which is left
of the window of the stretch, and the lexeme is found after more lines, `u`, were taken. -/
structure EndsStretch (rules : List (Rule T)) (w u v : Text) (x : Lexeme T) : Prop where
  ne_nil : w ≠ []
  answers : Lexicon.longestMatch rules w ≠ .noMatch
  window : Lexicon.IsWindow w (u ++ v)
  grown : Lexicon.IsWindow (w ++ u) v
  reads : Reads rules (w ++ u) v x
  unrecognized : x.error? = some .unrecognizedInput ↔
    Lexicon.longestMatch rules (w ++ u) = .noMatch

omit [Terminal T] in
/-- Lines that are taken move from what is to come to the end of the window. -/
theorem Pulls.exists_taken {l l' : Lexer T} (h : Pulls l l') :
    ∃ u, l'.window = l.window ++ u ∧ l.lines.pending = u ++ l'.lines.pending := by
  have hfront : l.window <+: l'.window := by
    refine h.preserves (P := fun m ↦ l.window <+: m.window) (fun m m' hm hp ↦ hm.trans ?_)
      List.prefix_rfl
    obtain ⟨line, lines, -, rfl⟩ := pull_eq_some hp
    exact List.prefix_append m.window line.raw
  obtain ⟨u, hu⟩ := hfront
  have hpending := h.frame.1
  rw [pending, pending, ← hu, List.append_assoc] at hpending
  exact ⟨u, hu.symm, (List.append_cancel_left hpending).symm⟩

omit [Terminal T] in
/-- What an unrecognized stretch is cut off: no rule answers in it, and some rule does behind it. -/
theorem Finds.stretch {l l' m : Lexer T} {i : InvalidToken} (h : l.Finds (.invalid i, m) l')
    (hi : i.error = .unrecognizedInput) :
    (∀ p q, i.text = p ++ q → q ≠ [] →
      Lexicon.longestMatch l.lexicon.rules (q ++ m.window) = .noMatch) ∧
      (m.window ≠ [] → Lexicon.longestMatch l.lexicon.rules m.window ≠ .noMatch) := by
  have hm := h.unrecognized.1 (congrArg some hi)
  obtain ⟨front, back, hfront, hsize, -, hinside, hbehind⟩ :=
    Lexicon.unrecognizedSize_spec l.lexicon.rules hm h.window_ne_nil
  have hreads := h.reads
  cases hreads with
  | unterminated hm' _ _ =>
    rw [hm] at hm'
    cases hm'
  | gap _ _ hn =>
    obtain ⟨rfl, rfl⟩ :=
      Text.append_inj_of_size (h.cuts.append.trans hfront) (hn.symm.trans hsize)
    exact ⟨hinside, hbehind⟩

/-- **An unrecognized stretch ends before its window does**, where some rule answers. -/
theorem IsUndisturbed.exists_endsStretch {l : Lexer T} (h : l.IsUndisturbed)
    (hl : Lexicon.KeepsBreaks l.lexicon.rules) {i : InvalidToken} {x : Lexeme T}
    {back : List (Lexeme T)} (hxs : l.lexemes = .invalid i :: x :: back)
    (hi : i.error = .unrecognizedInput) :
    ∃ w u v, texts (x :: back) = w ++ u ++ v ∧ EndsStretch l.lexicon.rules w u v x := by
  obtain ⟨l₁, m₁, hfills₁, hfinds₁, hnext, h', hxs'⟩ := h.next hxs
  obtain ⟨l₂, m₂, hfills₂, hfinds₂, hnext', -, -⟩ := h'.next hxs'
  obtain ⟨-, -, hlexicon, hlexicon₁, -⟩ := hfinds₁.frame hfills₁
  obtain ⟨hleft, hpending, -, -, -⟩ := hfinds₂.frame hfills₂
  rw [show l.next = (.invalid i, l.next.2) from Prod.ext hnext rfl] at hfinds₁
  generalize l.next.2 = m at *
  obtain ⟨hinside, hbehind⟩ := hfinds₁.stretch hi
  rw [hlexicon₁] at hinside hbehind
  -- The window does not end with the stretch, for it ends with a line break if more is pending.
  have hne : m.window ≠ [] := by
    intro hnil
    have happend := hfinds₁.cuts.append
    rw [hnil, List.append_nil] at happend
    have hv : m₁.lines.pending ≠ [] := by
      intro hv
      have hlines : m.lines = m₁.lines := hfinds₁.cuts.lines
      have hpend : m.pending = [] := by simp [pending, hnil, hlines, hv]
      rw [hpend] at hleft
      exact hfinds₂.cuts.text_ne_nil (List.append_eq_nil_iff.1 hleft).1
    have hbroken := (hfinds₁.shows hfinds₁.window_ne_nil).isBroken hv
    rw [← happend] at hbroken
    exact hbroken.not_isUnbroken (hl.isUnbroken_unrecognized hinside)
  obtain rfl := hfills₂.eq_of_window hne
  obtain ⟨u, hu, hrest⟩ := hfinds₂.pulls.exists_taken
  have hreads := hfinds₂.reads
  have hunrecognized := hfinds₂.unrecognized
  have hgrown := hfinds₂.shows hfinds₂.window_ne_nil
  rw [hnext', hlexicon, hu] at hreads hunrecognized
  rw [hu] at hpending hgrown
  refine ⟨l₂.window, u, m₂.lines.pending, ?_, hne, hbehind hne, hrest ▸ h'.shows hne, hgrown,
    hreads, hunrecognized⟩
  rw [← hxs', h'.isRead.1.texts_eq, hpending]

/-! ### Runs within the limits -/

/-- What is left is too short to pass a limit, and the source has not failed behind it. -/
structure HasRoom (l : Lexer T) : Prop where
  length : Text.size l.pending ≤ l.maxLength
  count : l.tally.total + l.pending.length ≤ l.maxCount
  ending : l.lines.ending = none

omit [Terminal T] in
theorem HasRoom.pulls {l l' : Lexer T} (room : l.HasRoom) (h : Pulls l l') : l'.HasRoom := by
  obtain ⟨hpending, -, -, hmaxLength, hmaxCount, -, -, htotal, hending⟩ := h.frame
  refine ⟨?_, ?_, hending.trans room.ending⟩
  · rw [hpending, hmaxLength]
    exact room.length
  · rw [hpending, hmaxCount, htotal]
    exact room.count

omit [Terminal T] in
theorem HasRoom.cuts {l : Lexer T} {p : Lexeme T × Lexer T} (room : l.HasRoom) (h : l.Cuts p) :
    p.2.HasRoom := by
  have hlength := room.length
  have hcount := room.count
  have hpos := List.length_pos_iff.2 h.text_ne_nil
  rw [← h.pending, Text.size_append] at hlength
  rw [← h.pending, List.length_append] at hcount
  refine ⟨?_, ?_, ?_⟩
  · rw [h.maxLength]
    omega
  · rw [h.maxCount, h.total]
    omega
  · rw [h.lines]
    exact room.ending

theorem Classifies.isOfInput {l : Lexer T} {p : Lexeme T × Lexer T} (h : Classifies l p)
    (hl : l.IsFed) (hw : l.window ≠ []) (room : l.HasRoom) : p.1.isOfInput = true := by
  have hsize : ∀ m : Lexer T, m.HasRoom → Text.size m.window ≤ m.maxLength := fun m room ↦ by
    have hlength := room.length
    rw [pending, Text.size_append] at hlength
    omega
  induction h with
  | @full l hc =>
    have hcount := room.count
    have hpos := List.length_pos_iff.2 hw
    rw [pending, List.length_append] at hcount
    omega
  | unrecognized _ _ => rfl
  | @matched l i n r _ hm _ =>
    obtain ⟨-, -, hb⟩ := Lexicon.scan_of_longestMatch_eq_matched hm
    obtain ⟨front, back, hfront, rfl⟩ := Text.isBoundary_iff.1 hb
    have hlength := hsize l room
    rw [hfront, Text.size_append] at hlength
    rw [accept, if_neg (by omega)]
    rfl
  | overlong _ _ hlong => exact absurd (hsize _ room) (Nat.not_le.2 hlong)
  | unterminated _ _ _ _ => rfl
  | more _ _ _ hp _ ih => exact ih (hl.pull hp).1 (hl.pull hp).2 (room.pulls (.step hp .refl))

/-- **A run that has room is not disturbed.** -/
theorem HasRoom.isOfInput_lexemes {l : Lexer T} (room : l.HasRoom) (hl : l.IsFed)
    (live : l.IsLive) : ∀ x ∈ l.lexemes, x.isOfInput = true := by
  generalize hn : l.pending.length = n
  induction n using Nat.strong_induction_on generalizing l with
  | _ n ih =>
    by_cases hend : l.next.1 = .endOfInput
    · rw [lexemes_of_next_end hend]
      simp
    have hne : l.pending ≠ [] ∧ l.next.1.isOfInput = true := by
      have hsteps := steps_next hl
      generalize l.next = p at hsteps hend
      cases hsteps with
      | finished hf => exact absurd rfl hend
      | halted _ hh => exact absurd rfl hend
      | fault _ _ _ he => rw [room.ending] at he; cases he
      | exhausted _ _ _ _ => exact absurd rfl hend
      | filled _ hw hc => exact ⟨by simp [pending, hw], hc.isOfInput hl hw room⟩
      | @empty l' _ _ _ hpull hc =>
        obtain ⟨hl', hw'⟩ := hl.pull hpull
        refine ⟨?_, hc.isOfInput hl' hw' (room.pulls (.step hpull .refl))⟩
        rw [← pending_of_pull hpull]
        simp [pending, hw']
    obtain ⟨l', hpulls, hcuts, hlt, hl', live'⟩ := exists_cut_of_isOfInput hl live hne.1 hne.2
    rw [lexemes_of_next hend]
    exact List.forall_mem_cons.2
      ⟨hne.2, ih _ (hn ▸ hlt) ((room.pulls hpulls).cuts hcuts) hl' live' rfl⟩

omit [Terminal T] in
/-- **If the rules are stable, a lexeme is found in all of what is left.** -/
theorem Reads.whole {rules : List (Rule T)} {P : Text → Prop} (hs : Lexicon.IsStable rules P)
    {w v : Text} (hP : P (w ++ v)) (hw : w ≠ []) (hwindow : Lexicon.IsWindow w v) {x : Lexeme T}
    (h : Reads rules w v x) : Reads rules (w ++ v) [] x := by
  cases h with
  | @gap i back hm ht hn =>
    have hback : w ++ v = i.text ++ (back ++ v) := by rw [ht, List.append_assoc]
    refine .gap ((hs.longestMatch_append hP hwindow (by simp [hm])).trans hm) hback ?_
    rw [hs.unrecognizedSize_append hP hwindow hm hw, hn]
  | @token x i r back hm ht hr hterminal =>
    have hback : w ++ v = x.text ++ (back ++ v) := by rw [ht, List.append_assoc]
    exact .token ((hs.longestMatch_append hP hwindow (by simp [hm])).trans hm) hback hr hterminal
  | unterminated hm hv hx =>
    subst hv
    rw [List.append_nil]
    exact .unterminated hm rfl hx

/-- A text that is short enough is read within the limits. -/
theorem isOfInput_of_delivers (lexicon : Lexicon T) (preferences : LexicalPreferences)
    (unit : String) {feed : Feed} {t : Text} {unitLimit lineLimit maxLength maxCount : Nat}
    (ht : feed.Delivers t) (hunit : Text.size t ≤ unitLimit) (hlines : t.FitsLines lineLimit)
    (hlength : Text.size t ≤ maxLength) (hcount : t.length ≤ maxCount) :
    let run := ((ofDecoder lexicon preferences unit { feed, limit := unitLimit }
      lineLimit).withLimits maxLength maxCount).lexemes
    ∀ x ∈ run, x.isOfInput = true := by
  let decoder : Decoder := { feed, limit := unitLimit }
  let splitter : Splitter := { unit, decoder, limit := lineLimit }
  have hread : decoder.read = (t, none) :=
    Decoder.read_eq_of_delivers ⟨rfl, rfl⟩ ht ((Nat.zero_add _).symm ▸ hunit)
  obtain ⟨hraw, hfault⟩ := Splitter.rest_of_fitsLines (s := splitter) rfl hread hlines
  obtain ⟨hpending, hfed, live⟩ :=
    ofDecoder_spec lexicon preferences unit decoder lineLimit maxLength maxCount
  have hpending := hpending.trans hraw
  refine HasRoom.isOfInput_lexemes ⟨?_, ?_, ?_⟩ hfed live
  · rw [hpending]
    exact hlength
  · rw [hpending]
    exact (Nat.zero_add t.length).symm ▸ hcount
  · exact (LineStream.ending_ofSplitter _ splitter).trans hfault

/-- A run over a unit is undisturbed if its lexemes are. -/
theorem isUndisturbed_ofDecoder (lexicon : Lexicon T) (preferences : LexicalPreferences)
    (unit : String) (decoder : Decoder) (lineLimit maxLength maxCount : Nat) :
    let l := (ofDecoder lexicon preferences unit decoder lineLimit).withLimits maxLength maxCount
    (∀ x ∈ l.lexemes, x.isOfInput = true) → l.IsUndisturbed := by
  intro l hxs
  obtain ⟨-, hfed, live⟩ :=
    ofDecoder_spec lexicon preferences unit decoder lineLimit maxLength maxCount
  exact ⟨hfed, live, fun h ↦ absurd rfl h, hxs⟩

/-- **An undisturbed run over a unit has read the text that its feed delivers.** -/
theorem isRead_of_delivers (lexicon : Lexicon T) (preferences : LexicalPreferences)
    (unit : String) {feed : Feed} {t : Text} {unitLimit lineLimit maxLength maxCount : Nat}
    (ht : feed.Delivers t) :
    let run := ((ofDecoder lexicon preferences unit { feed, limit := unitLimit }
      lineLimit).withLimits maxLength maxCount).lexemes
    (∀ x ∈ run, x.isOfInput = true) → IsRead lexicon.rules t run := by
  intro run hxs
  let decoder : Decoder := { feed, limit := unitLimit }
  let splitter : Splitter := { unit, decoder, limit := lineLimit }
  obtain ⟨hpending, -⟩ :=
    ofDecoder_spec lexicon preferences unit decoder lineLimit maxLength maxCount
  obtain ⟨hread, hending⟩ := (isUndisturbed_ofDecoder lexicon preferences unit decoder lineLimit
    maxLength maxCount hxs).isRead
  have hfault : splitter.rest.2.fault = none :=
    (LineStream.ending_ofSplitter _ splitter).symm.trans hending
  have hraw : splitter.rest.1.flatMap Line.raw = t := by
    obtain ⟨unread, hbytes, hunread⟩ := Decoder.bytes_eq_encode_text (d := decoder) ⟨rfl, rfl⟩
    cases splitter.stops_rest rfl with
    | read htext hnone =>
      have hnone : decoder.ending = none := Option.map_eq_none_iff.1 (hnone.symm.trans hfault)
      have hall : feed.bytes = Text.encode decoder.text ++ unread := hbytes
      rw [hunread hnone, List.append_nil, ht.1] at hall
      exact htext.trans (Text.encode_injective hall.symm)
    | overlong n h => rw [hfault] at h; cases h
  rw [hpending, hraw] at hread
  exact hread

end Lexer

end LexFront
