import LexFront.Proofs.Line.Locating

/-!
# The lines of a text

A text has one list of lines and no other. That is said of the lines themselves and not of a way to
find them: put together they are the text, no line holds a break, only the last may lack its break,
and a break of two characters is not taken for two. A splitter hands out these lines, whatever they
are, as long as they fit its limit; of the first that does not fit it hands out the front, up to
the character that is too much, and stops.

The lines are compared one at a time: what is read of a line is settled by what stands before the
break and by what follows it (`Terminator.append_inj`), and a splitter cannot tell more of them.

Key facts:

* `Line.isCanonical_iff`: lines of a text are lines that follow each other.
* `Line.IsCanonical.unique`: there is only one list of them.
* `Splitter.rest_of_canonical`: what a splitter hands out, and why it stops.
-/

set_option autoImplicit false

namespace LexFront

/-! ### What settles a line -/

namespace Text

/-- A text that goes on with no more of the line before it. -/
def IsBehindLine (t : Text) : Prop := ∀ c, t.head? = some c → isLineBreak c = true

/-- A stretch without breaks goes no further than the line it starts in. -/
theorem prefix_of_isBehindLine {p s t : Text} (hp : p.IsUnbroken) (ht : t.IsBehindLine)
    (h : p <+: s ++ t) : p <+: s := by
  induction s generalizing p with
  | nil =>
    cases p with
    | nil => exact List.prefix_refl _
    | cons c p =>
      obtain ⟨back, rfl⟩ := h
      have hbreak := ht c rfl
      rw [(isUnbroken_cons.1 hp).1] at hbreak
      cases hbreak
  | cons c s ih =>
    cases p with
    | nil => exact List.nil_prefix
    | cons c' p =>
      obtain ⟨rfl, hrest⟩ := List.cons_prefix_cons.1 h
      exact List.cons_prefix_cons.2 ⟨rfl, ih (isUnbroken_cons.1 hp).2 hrest⟩

theorem append_inj_of_isUnbroken {s s' t t' : Text} (hs : s.IsUnbroken) (hs' : s'.IsUnbroken)
    (ht : t.IsBehindLine) (ht' : t'.IsBehindLine) (h : s ++ t = s' ++ t') : s = s' ∧ t = t' := by
  have hle : s <+: s' := prefix_of_isBehindLine hs ht' (h ▸ List.prefix_append s t)
  have hge : s' <+: s := prefix_of_isBehindLine hs' ht (h ▸ List.prefix_append s' t')
  obtain rfl := hle.eq_of_length_le hge.length_le
  exact ⟨rfl, List.append_cancel_left h⟩

end Text

namespace Terminator

/-- A break that is all of the break at which it stands, with `rest` behind it. -/
structure IsWhole (t : Terminator) (rest : Text) : Prop where
  rest_eq_nil : t = .none → rest = []
  head?_ne : t = .cr → rest.head? ≠ some '\n'

theorem IsWhole.nil (t : Terminator) : t.IsWhole [] := ⟨fun _ ↦ rfl, nofun⟩

theorem IsWhole.isBehindLine {t : Terminator} {rest : Text} (h : t.IsWhole rest) :
    (t.text ++ rest).IsBehindLine := by
  intro c hc
  cases t with
  | none =>
    rw [h.rest_eq_nil rfl] at hc
    cases hc
  | lf =>
    cases hc
    rfl
  | cr =>
    cases hc
    rfl
  | crLf =>
    cases hc
    rfl

/-- What follows a line settles its break. -/
theorem append_inj {t t' : Terminator} {rest rest' : Text} (ht : t.IsWhole rest)
    (ht' : t'.IsWhole rest') (h : t.text ++ rest = t'.text ++ rest') : t = t' ∧ rest = rest' := by
  have hnone := ht.rest_eq_nil
  have hnone' := ht'.rest_eq_nil
  -- Only a carriage return is the start of another break.
  have hcr : t = .cr → ∀ r, rest ≠ '\n' :: r := fun hc r hr ↦ ht.head?_ne hc (hr ▸ rfl)
  have hcr' : t' = .cr → ∀ r, '\n' :: r ≠ rest' := fun hc r hr ↦ ht'.head?_ne hc (hr ▸ rfl)
  cases t <;> cases t' <;> simp_all [Terminator.text]

end Terminator

namespace Line

/-- **What a line is made of settles it**, together with what follows. -/
theorem raw_append_inj {text text' rest rest' : Text} {t t' : Terminator}
    (hu : text.IsUnbroken) (hu' : text'.IsUnbroken) (ht : t.IsWhole rest) (ht' : t'.IsWhole rest')
    (h : text ++ t.text ++ rest = text' ++ t'.text ++ rest') :
    text = text' ∧ t = t' ∧ rest = rest' := by
  rw [List.append_assoc, List.append_assoc] at h
  obtain ⟨htext, hback⟩ :=
    Text.append_inj_of_isUnbroken hu hu' ht.isBehindLine ht'.isBehindLine h
  exact ⟨htext, Terminator.append_inj ht ht' hback⟩

/-! ### The lines of a text -/

/-- Lines that are those of a text from line `n` of a unit on. -/
structure IsCanonical (unit : String) (n : Nat) (t : Text) (ls : List Line) : Prop where
  flatMap_raw : ls.flatMap raw = t
  location_eq : ∀ front l back, ls = front ++ l :: back → l.location = ⟨unit, n + front.length, 1⟩
  isUnbroken : ∀ l ∈ ls, l.text.IsUnbroken
  /-- Only the last line may lack its break, but then it is not empty. -/
  eq_last : ∀ front l back, ls = front ++ l :: back → l.terminator = .none →
    back = [] ∧ l.text ≠ []
  /-- A carriage return and the line feed after it are one break. -/
  ne_lf : ∀ front l l' back, ls = front ++ l :: l' :: back → l.terminator = .cr → l'.text = [] →
    l'.terminator ≠ .lf

/-- What is known of the first of some lines that follow each other, besides `Heads`. -/
structure Settles (unit : String) (n : Nat) (l : Line) (rest : Text) : Prop where
  location : l.location = ⟨unit, n, 1⟩
  isUnbroken : l.text.IsUnbroken
  isWhole : l.terminator.IsWhole rest
  raw_ne_nil : l.raw ≠ []

theorem Consecutive.settles {unit : String} {n : Nat} {l : Line} {ls : List Line}
    (h : Consecutive unit n (l :: ls)) : l.Settles unit n (ls.flatMap raw) := by
  have hheads := h.heads
  cases h with
  | last hu _ => exact ⟨rfl, hu, ⟨fun _ ↦ rfl, nofun⟩, hheads.raw_ne_nil⟩
  | cons hu ht hcr _ => exact ⟨rfl, hu, ⟨fun hnone ↦ absurd hnone ht, hcr⟩, hheads.raw_ne_nil⟩

/-- Lines of no text are none. -/
theorem Consecutive.eq_nil {unit : String} {n : Nat} {ls : List Line} (h : Consecutive unit n ls)
    (hnil : ls.flatMap raw = []) : ls = [] := by
  cases ls with
  | nil => rfl
  | cons l ls => exact absurd (List.append_eq_nil_iff.1 hnil).1 h.heads.raw_ne_nil

/-- The lines behind some lines follow each other too. -/
theorem Consecutive.of_append {unit : String} {n : Nat} {front ls : List Line}
    (h : Consecutive unit n (front ++ ls)) : Consecutive unit (n + front.length) ls := by
  induction front generalizing n with
  | nil => exact h
  | cons l front ih =>
    have hrest := ih (Consecutive.heads h).rest
    rwa [Nat.add_assoc, Nat.add_comm 1] at hrest

/-- Of lines that follow each other only one list makes a text. -/
theorem Consecutive.unique {unit : String} {n : Nat} {ls ls' : List Line}
    (h : Consecutive unit n ls) (h' : Consecutive unit n ls')
    (hraw : ls.flatMap raw = ls'.flatMap raw) : ls = ls' := by
  induction ls generalizing n ls' with
  | nil => exact (h'.eq_nil hraw.symm).symm
  | cons l ls ih =>
    cases ls' with
    | nil => exact h.eq_nil hraw
    | cons l' ls' =>
      obtain ⟨hlocation, hu, hwhole, -⟩ := h.settles
      obtain ⟨hlocation', hu', hwhole', -⟩ := h'.settles
      obtain ⟨htext, ht, hrest⟩ := raw_append_inj hu hu' hwhole hwhole' hraw
      have hl : l = l' := by
        obtain ⟨location, text, t⟩ := l
        obtain ⟨location', text', t'⟩ := l'
        rw [mk.injEq]
        exact ⟨hlocation.trans hlocation'.symm, htext, ht⟩
      rw [hl, ih h.heads.rest h'.heads.rest hrest]

/-- The next line starts with a line feed only if that is all of it. -/
theorem head?_flatMap_raw {unit : String} {n : Nat} {ls : List Line} (h : Consecutive unit n ls)
    (hlf : (ls.flatMap raw).head? = some '\n') :
    ∃ l rest, ls = l :: rest ∧ l.text = [] ∧ l.terminator = .lf := by
  cases ls with
  | nil => cases hlf
  | cons l rest =>
    obtain ⟨-, hu, hwhole, hne⟩ := h.settles
    refine ⟨l, rest, rfl, ?_⟩
    obtain ⟨location, text, t⟩ := l
    cases text with
    | cons c text =>
      obtain rfl : c = '\n' := Option.some.inj hlf
      cases (Text.isUnbroken_cons.1 hu).1
    | nil =>
      refine ⟨rfl, ?_⟩
      cases t with
      | lf => rfl
      | cr => cases hlf
      | crLf => cases hlf
      | none => exact absurd rfl hne

/-- **Lines of a text are lines that follow each other.** -/
theorem isCanonical_iff {unit : String} {n : Nat} {t : Text} {ls : List Line} :
    IsCanonical unit n t ls ↔ ls.flatMap raw = t ∧ Consecutive unit n ls := by
  constructor
  · rintro ⟨hraw, hlocation, hu, hlast, hlf⟩
    refine ⟨hraw, ?_⟩
    clear hraw
    induction ls generalizing n with
    | nil => exact .nil
    | cons l ls ih =>
      have hrest : Consecutive unit (n + 1) ls := by
        refine ih (fun front l' back hls ↦ ?_) (fun l' hl ↦ hu l' (List.mem_cons_of_mem l hl))
          (fun front l' back hls ↦ hlast (l :: front) l' back (congrArg (l :: ·) hls))
          (fun front l' l'' back hls ↦ hlf (l :: front) l' l'' back (congrArg (l :: ·) hls))
        rw [hlocation (l :: front) l' back (congrArg (l :: ·) hls), List.length_cons]
        congr 1
        omega
      have hl := hlocation [] l ls rfl
      have hul := hu l List.mem_cons_self
      have hlast := hlast [] l ls rfl
      have hlf := fun l' back ↦ hlf [] l l' back
      obtain ⟨location, text, t⟩ := l
      obtain rfl : location = ⟨unit, n, 1⟩ := hl
      by_cases ht : t = .none
      · obtain ⟨rfl, hne⟩ := hlast ht
        rw [ht]
        exact .last hul hne
      · refine .cons hul ht (fun hcr hhead ↦ ?_) hrest
        obtain ⟨l', back, rfl, htext, hterminator⟩ := head?_flatMap_raw hrest hhead
        exact hlf l' back rfl hcr htext hterminator
  · rintro ⟨hraw, hc⟩
    refine ⟨hraw, ?_, fun l hl ↦ ?_, ?_, ?_⟩
    · rintro front l back rfl
      exact hc.of_append.settles.location
    · obtain ⟨front, back, rfl⟩ := List.append_of_mem hl
      exact hc.of_append.settles.isUnbroken
    · rintro front l back rfl hnone
      obtain ⟨-, -, hwhole, hne⟩ := hc.of_append.settles
      refine ⟨hc.of_append.heads.rest.eq_nil (hwhole.rest_eq_nil hnone), fun hnil ↦ hne ?_⟩
      rw [raw, hnil, hnone]
      rfl
    · rintro front l l' back rfl hcr hnil hlf
      refine hc.of_append.settles.isWhole.head?_ne hcr ?_
      rw [List.flatMap_cons, raw, hnil, hlf]
      rfl

/-- **A text has one list of lines.** -/
theorem IsCanonical.unique {unit : String} {n : Nat} {t : Text} {ls ls' : List Line}
    (h : IsCanonical unit n t ls) (h' : IsCanonical unit n t ls') : ls' = ls := by
  obtain ⟨hraw, hc⟩ := isCanonical_iff.1 h
  obtain ⟨hraw', hc'⟩ := isCanonical_iff.1 h'
  exact hc'.unique hc (hraw'.trans hraw.symm)

end Line

namespace Splitter

/-! ### What a splitter hands out -/

/-- The splitter after a line, in front of `rest`: it goes on there, or it was told that nothing is
there. -/
inductive Follows (s s' : Splitter) (rest : Text) : Prop where
  | goes {d : Decoder} : s' = s.afterLine d → d.text = rest → d.ending = s.decoder.ending →
      Follows s s' rest
  | stopped : rest = [] → s'.done = true → s'.fault = s.decoder.ending.map .source →
      Follows s s' rest

/-- A line that is read is the next line of the text. -/
theorem line_of_read {s : Splitter} {l : Line} {text rest rest' : Text} {t : Terminator}
    {e : Option SourceError} (hl : l.Settles s.unit s.line rest)
    (htext : s.decoder.text = l.raw ++ rest) (hu : text.IsUnbroken) (ht : t.IsWhole rest')
    (hread : s.decoder.read = (text ++ t.text ++ rest', e)) :
    l = ⟨⟨s.unit, s.line, 1⟩, text, t⟩ ∧ rest = rest' ∧ e = s.decoder.ending := by
  obtain ⟨location, text', t'⟩ := l
  rw [Decoder.text, hread] at htext
  obtain ⟨rfl, rfl, rfl⟩ := Line.raw_append_inj hl.isUnbroken hu hl.isWhole ht htext.symm
  refine ⟨?_, rfl, ?_⟩
  · rw [Line.mk.injEq]
    exact ⟨hl.location, rfl, rfl⟩
  · rw [Decoder.ending, hread]

/-- A stretch without breaks that is read is the front of the next line. -/
theorem prefix_of_read {s : Splitter} {l : Line} {text rest rest' : Text}
    (hl : l.Settles s.unit s.line rest) (htext : s.decoder.text = l.raw ++ rest)
    (hu : text.IsUnbroken) (hread : s.decoder.text = text ++ rest') : text <+: l.text := by
  refine Text.prefix_of_isBehindLine hu hl.isWhole.isBehindLine ?_
  rw [← List.append_assoc, ← Line.raw, ← htext, hread]
  exact List.prefix_append _ _

theorem lastLine?_of_ne_nil (location : Location) {text : Text} (h : text ≠ []) :
    lastLine? location text = some ⟨location, text, .none⟩ := by
  rw [lastLine?, if_neg]
  rwa [List.isEmpty_iff]

/-- **A line that fits is handed out as it is.** -/
theorem next_of_fits {s : Splitter} {l : Line} {rest : Text} (hd : s.done = false)
    (hl : l.Settles s.unit s.line rest) (htext : s.decoder.text = l.raw ++ rest)
    (hsize : Text.size l.text ≤ s.limit) :
    ∃ s', s.next = (some l, s') ∧ Follows s s' rest := by
  -- A line that nothing follows is the last one, if it lacks its break.
  have hlast : ∀ {text e}, text.IsUnbroken → s.decoder.read = (text, e) →
      lastLine? ⟨s.unit, s.line, 1⟩ text = some l ∧ rest = [] ∧ e = s.decoder.ending := by
    intro text e hu hread
    obtain ⟨rfl, hrest, he⟩ :=
      line_of_read hl htext hu (.nil .none) (by simpa [Terminator.text] using hread)
    exact ⟨lastLine?_of_ne_nil _ (by simpa [Line.raw, Terminator.text] using hl.raw_ne_nil),
      hrest, he⟩
  simp only [next, hd, Bool.false_eq_true, if_false]
  have h := Decoder.readsLine s.limit s.decoder
  generalize s.decoder.readLine s.limit = r at h
  cases h with
  | terminated hu hs ht hcr hread =>
    obtain ⟨rfl, hrest, he⟩ := line_of_read hl htext hu ⟨fun hnone ↦ absurd hnone ht, hcr⟩ hread
    exact ⟨_, rfl, .goes rfl hrest.symm he⟩
  | terminatedThenFault hu hs hread hnil =>
    obtain ⟨rfl, hrest, he⟩ :=
      line_of_read hl htext hu (.nil .cr) (by simpa [Terminator.text] using hread)
    exact ⟨_, rfl, .stopped hrest rfl (by rw [← he]; rfl)⟩
  | exhausted hu hs hread hnil =>
    obtain ⟨hline, hrest, he⟩ := hlast hu hread
    exact ⟨_, Prod.ext hline rfl, .stopped hrest rfl (by rw [← he]; rfl)⟩
  | fault hu hs hread hnil =>
    obtain ⟨hline, hrest, he⟩ := hlast hu hread
    exact ⟨_, Prod.ext hline rfl, .stopped hrest rfl (by rw [← he]; rfl)⟩
  | @tooLong front c d' hu hf hs hread =>
    obtain ⟨more, hmore⟩ := prefix_of_read hl htext hu hread
    rw [← hmore, Text.size_append] at hsize
    omega

/-- The front of a line up to the character that is too much for a limit. -/
structure IsCut (limit : Nat) (l : Line) (front : Text) (c : Char) : Prop where
  isPrefix : front ++ [c] <+: l.text
  fits : Text.size front ≤ limit
  exceeds : limit < Text.size (front ++ [c])

/-- **Of a line that does not fit the front is handed out**, and nothing after it. -/
theorem next_of_exceeds {s : Splitter} {l : Line} {rest : Text} (hd : s.done = false)
    (hl : l.Settles s.unit s.line rest) (htext : s.decoder.text = l.raw ++ rest)
    (hsize : s.limit < Text.size l.text) :
    ∃ front c s', IsCut s.limit l front c ∧
      s.next = (some ⟨⟨s.unit, s.line, 1⟩, front ++ [c], .none⟩, s') ∧ s'.done = true ∧
      s'.fault = some (.lineTooLong s.line s.limit) := by
  have hfits : ∀ {text t rest' e}, text.IsUnbroken → Text.size text ≤ s.limit →
      Terminator.IsWhole t rest' → s.decoder.read ≠ (text ++ t.text ++ rest', e) := by
    intro text t rest' e hu hs ht hread
    obtain ⟨rfl, -⟩ := line_of_read hl htext hu ht hread
    exact absurd hsize (Nat.not_lt.2 hs)
  simp only [next, hd, Bool.false_eq_true, if_false]
  have h := Decoder.readsLine s.limit s.decoder
  generalize s.decoder.readLine s.limit = r at h
  cases h with
  | terminated hu hs ht hcr hread =>
    exact absurd hread (hfits hu hs ⟨fun hnone ↦ absurd hnone ht, hcr⟩)
  | terminatedThenFault hu hs hread hnil =>
    exact absurd (by simpa [Terminator.text] using hread) (hfits hu hs (.nil .cr))
  | exhausted hu hs hread hnil =>
    exact absurd (by simpa [Terminator.text] using hread) (hfits hu hs (.nil .none))
  | fault hu hs hread hnil =>
    exact absurd (by simpa [Terminator.text] using hread) (hfits hu hs (.nil .none))
  | @tooLong front c d' hu hf hs hread =>
    exact ⟨front, c, _, ⟨prefix_of_read hl htext hu hread, hf, hs⟩,
      Prod.ext (lastLine?_of_ne_nil _ (by simp)) rfl, rfl, rfl⟩

/-- Where there are no characters there is no line. -/
theorem next_of_text_eq_nil {s : Splitter} (hd : s.done = false) (htext : s.decoder.text = []) :
    ∃ s', s.next = (none, s') ∧ s'.fault = s.decoder.ending.map .source := by
  have hnil : ∀ {text e}, s.decoder.read = (text, e) → text = [] ∧ e = s.decoder.ending := by
    intro text e hread
    rw [Decoder.text, hread] at htext
    exact ⟨htext, by rw [Decoder.ending, hread]⟩
  simp only [next, hd, Bool.false_eq_true, if_false]
  have h := Decoder.readsLine s.limit s.decoder
  generalize s.decoder.readLine s.limit = r at h
  cases h with
  | @terminated text t d' hu hs ht hcr hread =>
    cases t <;> simp_all [Terminator.text]
  | terminatedThenFault hu hs hread _ => exact absurd (hnil hread).1 (by simp)
  | exhausted hu hs hread _ =>
    obtain ⟨rfl, he⟩ := hnil hread
    exact ⟨_, rfl, by rw [← he]; rfl⟩
  | fault hu hs hread _ =>
    obtain ⟨rfl, he⟩ := hnil hread
    exact ⟨_, rfl, by rw [← he]; rfl⟩
  | tooLong hu hf hs hread =>
    rw [htext] at hread
    simp at hread

/-- **Lines that fit are what a splitter hands out**, and then it stops where its decoder does. -/
theorem rest_of_fits {s : Splitter} {ls : List Line} (hd : s.done = false)
    (hc : Line.Consecutive s.unit s.line ls) (htext : ls.flatMap Line.raw = s.decoder.text)
    (hfits : ∀ l ∈ ls, Text.size l.text ≤ s.limit) :
    s.rest.1 = ls ∧ s.rest.2.fault = s.decoder.ending.map .source := by
  induction ls generalizing s with
  | nil =>
    obtain ⟨s', hnext, hfault⟩ := next_of_text_eq_nil hd htext.symm
    rw [rest_of_next_none hnext]
    exact ⟨rfl, hfault⟩
  | cons l ls ih =>
    obtain ⟨s', hnext, hfollows⟩ :=
      next_of_fits hd hc.settles htext.symm (hfits l List.mem_cons_self)
    rw [rest_of_next_some hnext]
    cases hfollows with
    | goes hs' hrest hending =>
      subst hs'
      obtain ⟨hls, hfault⟩ := ih (s := s.afterLine _) hd hc.heads.rest hrest.symm
        (fun l' hl' ↦ hfits l' (List.mem_cons_of_mem l hl'))
      exact ⟨congrArg (l :: ·) hls, hfault.trans (congrArg _ hending)⟩
    | stopped hnil hdone hfault =>
      rw [rest_of_done hdone, hc.heads.rest.eq_nil hnil]
      exact ⟨rfl, hfault⟩

/-- **The first line that does not fit is the last one**, with only its front. -/
theorem rest_of_exceeds {s : Splitter} {front back : List Line} {l : Line} (hd : s.done = false)
    (hc : Line.Consecutive s.unit s.line (front ++ l :: back))
    (htext : (front ++ l :: back).flatMap Line.raw = s.decoder.text)
    (hfits : ∀ l' ∈ front, Text.size l'.text ≤ s.limit) (hsize : s.limit < Text.size l.text) :
    ∃ cut c, IsCut s.limit l cut c ∧ s.rest.1 = front ++ [⟨l.location, cut ++ [c], .none⟩] ∧
      s.rest.2.fault = some (.lineTooLong (s.line + front.length) s.limit) := by
  induction front generalizing s with
  | nil =>
    have hl := Line.Consecutive.settles hc
    obtain ⟨cut, c, s', hcut, hnext, hdone, hfault⟩ := next_of_exceeds hd hl htext.symm hsize
    rw [rest_of_next_some hnext, rest_of_done hdone, hl.location]
    exact ⟨cut, c, hcut, rfl, hfault⟩
  | cons l' front ih =>
    have hl' := Line.Consecutive.settles hc
    have hheads := Line.Consecutive.heads hc
    obtain ⟨s', hnext, hfollows⟩ := next_of_fits hd hl' htext.symm (hfits l' List.mem_cons_self)
    rw [rest_of_next_some hnext]
    cases hfollows with
    | goes hs' hrest _ =>
      subst hs'
      obtain ⟨cut, c, hcut, hls, hfault⟩ := ih (s := s.afterLine _) hd hheads.rest
        hrest.symm (fun l'' hl'' ↦ hfits l'' (List.mem_cons_of_mem l' hl'')) hsize
      refine ⟨cut, c, hcut, congrArg (l' :: ·) hls, hfault.trans ?_⟩
      rw [List.length_cons, Nat.add_comm front.length, ← Nat.add_assoc]
      rfl
    | stopped hnil _ _ => exact absurd (hheads.rest.eq_nil hnil) (by simp)

/-- Whoever takes all lines has a splitter that stopped. -/
theorem done_rest (s : Splitter) : s.rest.2.done = true := by
  fun_induction rest s with
  | case1 s s' h =>
    have hout := handsOut_next s
    rw [h] at hout
    cases hout with
    | done hd => exact hd
    | stop _ hd _ _ _ _ => exact hd
  | case2 s l s' h ls s'' hrest ih => rwa [hrest] at ih

theorem exists_consecutive (unit : String) (d : Decoder) :
    ∃ ls, Line.Consecutive unit 1 ls ∧ ls.flatMap Line.raw = d.text := by
  -- A splitter whose limit no line can exceed finds them.
  let s : Splitter := { unit, decoder := d, limit := Text.size d.text }
  refine ⟨s.rest.1, s.consecutive_rest, ?_⟩
  cases stops_rest (s := s) rfl with
  | read hraw _ => exact hraw
  | @overlong front text c _ _ hraw _ _ _ hlong =>
    have hsize := congrArg Text.size (text_eq_rest (s := s) rfl)
    rw [hraw, Text.size_append, List.append_assoc, Text.size_append] at hsize
    have hlimit : s.limit = Text.size s.decoder.text := rfl
    omega

/-- **A splitter hands out the lines of the text that its decoder reads**, however they are broken
and wherever the decoder fails. The first line that does not fit the limit is cut, and then it is
the last one; otherwise the splitter stops where the decoder does. It stays stopped. -/
theorem rest_of_canonical (unit : String) (d : Decoder) (limit : Nat) :
    let s : Splitter := { unit, decoder := d, limit }
    ∃ ls, Line.IsCanonical unit 1 d.text ls ∧
      (∀ ls', Line.IsCanonical unit 1 d.text ls' → ls' = ls) ∧
      ((∀ l ∈ ls, Text.size l.text ≤ limit) →
        s.rest.1 = ls ∧ s.rest.2.fault = d.ending.map .source) ∧
      (∀ front l back, ls = front ++ l :: back → (∀ l' ∈ front, Text.size l'.text ≤ limit) →
        limit < Text.size l.text →
          ∃ cut c, IsCut limit l cut c ∧ s.rest.1 = front ++ [⟨l.location, cut ++ [c], .none⟩] ∧
            s.rest.2.fault = some (.lineTooLong (1 + front.length) limit)) ∧
      ∀ s', s' = s.rest.2 ∨ s' = s.rest.2.takeFault.2 → s'.next = (none, s') := by
  intro s
  obtain ⟨ls, hc, htext⟩ := exists_consecutive unit d
  have hls := Line.isCanonical_iff.2 ⟨htext, hc⟩
  refine ⟨ls, hls, fun ls' ↦ hls.unique, fun hfits ↦ ?_, ?_, ?_⟩
  · exact rest_of_fits (s := s) rfl hc htext hfits
  · rintro front l back rfl hfits hsize
    exact rest_of_exceeds (s := s) rfl hc htext hfits hsize
  · rintro s' (rfl | rfl) <;> exact next_of_done (done_rest s)

end Splitter

end LexFront
