import LexFront.Proofs.Lexer.Windows

/-!
# Lexemes at the start of a line

Which lexeme is found at a place of a text depends on the window that is in sight there, and that on
the lexemes before. Only at the start of a line it does not: no line is in sight there, and no more
of them are taken than some rule asks for. So the window at the start of a line is the shortest one
that any lexer can have at that place, and what is found in it is a function of the text.

Key facts:

* `IsUndisturbed.reads_seen`: a lexeme is found in what its lexer has in sight.
* `IsUndisturbed.seen_prefix`: at the start of a line no more is in sight than anywhere else.
* `isUndisturbed_atLineStart`: a lexer that reads a text from the start of a line on.
-/

set_option autoImplicit false

namespace LexFront.Lexer

variable {T : Type} [Terminal T]

/-- What a lexer has in sight when it hands out its next lexeme. -/
def seen (l : Lexer T) : Text := l.next.1.text ++ l.next.2.window

variable {l m : Lexer T} {x y : Lexeme T} {xs ys : List (Lexeme T)}

/-- **A lexeme is found in what its lexer has in sight.** -/
theorem IsUndisturbed.reads_seen (h : l.IsUndisturbed) (hxs : l.lexemes = x :: xs) :
    l.pending = l.seen ++ l.next.2.lines.pending ∧ l.seen ≠ [] ∧
      Lexicon.IsWindow l.seen l.next.2.lines.pending ∧
      Reads l.lexicon.rules l.seen l.next.2.lines.pending x := by
  obtain ⟨l₀, l', hfills, hfinds, rfl, -, -⟩ := h.next hxs
  obtain ⟨-, hpending, -, hlexicon, -⟩ := hfinds.frame hfills
  have hreads := hfinds.reads
  rw [hlexicon] at hreads
  rw [seen, hfinds.cuts.append, hfinds.cuts.lines]
  exact ⟨hpending.symm, hfinds.window_ne_nil, hfinds.shows hfinds.window_ne_nil, hreads⟩

/-- More is asked for only if that is all there is. -/
theorem IsUndisturbed.ne_needMore (h : l.IsUndisturbed) (hxs : l.lexemes = x :: xs)
    (hv : l.next.2.lines.pending ≠ []) (k : Nat) :
    Lexicon.longestMatch l.lexicon.rules l.seen ≠ .needMore k := by
  intro hmore
  obtain ⟨-, -, -, hreads⟩ := h.reads_seen hxs
  cases hreads with
  | gap hm _ _ => cases hmore.symm.trans hm
  | token hm _ _ _ => cases hmore.symm.trans hm
  | unterminated _ hnil _ => exact hv hnil

/-- A token has the value that the decoder of its rule gives it. -/
theorem IsUndisturbed.value_eq (h : l.IsUndisturbed) {y : Token T}
    (hxs : l.lexemes = .valid y :: xs) :
    ∃ r ∈ l.lexicon.rules, y.terminal = r.terminal ∧ y.value = r.decode y.text := by
  obtain ⟨l₀, l', hfills, hfinds, hnext, -, -⟩ := h.next hxs
  obtain ⟨-, -, -, hlexicon, -⟩ := hfinds.frame hfills
  exact hlexicon ▸ hfinds.decodes y hnext

/-- At the start of a line a window goes no further than it must. -/
theorem IsUndisturbed.seen_shortest (h : l.IsUndisturbed) (hxs : l.lexemes = x :: xs)
    (hw : l.window = []) {w v : Text} (hpending : l.pending = w ++ v) (hne : w ≠ [])
    (hwindow : Lexicon.IsWindow w v) :
    l.seen <+: w ∨ ∃ k, Lexicon.longestMatch l.lexicon.rules w = .needMore k := by
  obtain ⟨l₀, l', hfills, hfinds, -, -, -⟩ := h.next hxs
  obtain ⟨-, -, -, hlexicon, -⟩ := hfinds.frame hfills
  have hshortest := hfinds.shortest
  rw [hfills.pulls.frame.1, hlexicon] at hshortest
  rw [seen, hfinds.cuts.append]
  cases hfills with
  | window hne => exact absurd hw hne
  | line _ hp =>
    have hline := h.fed.pull_prefix hp hne (v := v)
    rw [hw, List.nil_append] at hline
    obtain ⟨u, rfl⟩ := hline hpending hwindow
    exact hshortest u v hpending hwindow

/-- **At the start of a line no more is in sight** than where a lexer comes to the same text in any
other way. -/
theorem IsUndisturbed.seen_prefix (hl : l.IsUndisturbed) (hm : m.IsUndisturbed)
    (hrules : m.lexicon.rules = l.lexicon.rules) (hpending : m.pending = l.pending)
    (hxs : l.lexemes = x :: xs) (hys : m.lexemes = y :: ys) (hw : m.window = []) :
    m.seen <+: l.seen := by
  obtain ⟨hseen, hne, hwindow, -⟩ := hl.reads_seen hxs
  rcases hm.seen_shortest hys hw (hpending.trans hseen) hne hwindow with hfront | ⟨k, hmore⟩
  · exact hfront
  · have hv : l.next.2.lines.pending = [] := by
      by_contra hv
      exact hl.ne_needMore hxs hv k (hrules ▸ hmore)
    obtain ⟨hseen', -⟩ := hm.reads_seen hys
    rw [hv, List.append_nil, ← hpending, hseen'] at hseen
    exact ⟨_, hseen⟩

/-- At the starts of two lines that go on alike the same is in sight. -/
theorem IsUndisturbed.seen_eq (hl : l.IsUndisturbed) (hm : m.IsUndisturbed)
    (hrules : m.lexicon.rules = l.lexicon.rules) (hpending : m.pending = l.pending)
    (hxs : l.lexemes = x :: xs) (hys : m.lexemes = y :: ys) (hlw : l.window = [])
    (hmw : m.window = []) : m.seen = l.seen :=
  (hl.seen_prefix hm hrules hpending hxs hys hmw).eq_of_length_le
    (hm.seen_prefix hl hrules.symm hpending.symm hys hxs hlw).length_le

/-- An undisturbed lexer with something left hands out a lexeme. -/
theorem IsUndisturbed.exists_lexemes (h : l.IsUndisturbed) (hne : l.pending ≠ []) :
    ∃ xs, l.lexemes = l.next.1 :: xs := by
  cases hxs : l.lexemes with
  | nil =>
    rw [← h.isRead.1.texts_eq, hxs] at hne
    exact absurd rfl hne
  | cons x xs =>
    obtain ⟨-, -, -, -, rfl, -, -⟩ := h.next hxs
    exact ⟨xs, rfl⟩

/-- **A lexer at the start of a line** that all of a text is to come from, within all limits. -/
def atLineStart (lexicon : Lexicon T) (t : Text) : Lexer T :=
  (ofDecoder lexicon {} "" { feed := .ofBytes (Text.encode t), limit := Text.size t }
    (Text.size t)).withLimits (Text.size t) t.length

/-- The first lexeme of a text that stands at the start of a line. -/
def firstLexeme (lexicon : Lexicon T) (t : Text) : Lexeme T := (atLineStart lexicon t).next.1

theorem isUndisturbed_atLineStart (lexicon : Lexicon T) (t : Text) :
    (atLineStart lexicon t).IsUndisturbed :=
  isUndisturbed_ofDecoder lexicon {} "" _ _ _ _ <|
    isOfInput_of_delivers lexicon {} "" (Feed.delivers_ofBytes t) (Nat.le_refl _)
      (Text.fitsLines_of_size_le (Nat.le_refl _)) (Nat.le_refl _) (Nat.le_refl _)

@[simp] theorem pending_atLineStart (lexicon : Lexicon T) (t : Text) :
    (atLineStart lexicon t).pending = t := by
  have h := isUndisturbed_atLineStart lexicon t
  have hread := isRead_of_delivers lexicon {} "" (Feed.delivers_ofBytes t) h.ofInput
  exact h.isRead.1.texts_eq.symm.trans hread.texts_eq

theorem exists_lexemes_atLineStart (lexicon : Lexicon T) {t : Text} (ht : t ≠ []) :
    ∃ xs, (atLineStart lexicon t).lexemes = firstLexeme lexicon t :: xs :=
  (isUndisturbed_atLineStart lexicon t).exists_lexemes (by rwa [pending_atLineStart])

end LexFront.Lexer
