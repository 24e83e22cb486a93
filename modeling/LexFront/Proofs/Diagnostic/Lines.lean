import LexFront.Diagnostic.Sink

/-!
# Diagnostics as lines

A writer puts a line feed behind every diagnostic, and whoever reads what it wrote takes the line
feeds for the ends of diagnostics. That is right as long as no diagnostic has one of its own.
Numbers have none, and the text of an invalid token is shown with its line breaks escaped. The text
of an unexpected token is shown as it is, and there are tokens of more than one line.

Key facts:

* `Text.lineFeed_not_mem_escaped`: what is escaped is on one line.
* `Diagnostic.lineFeed_mem_render_iff`: where a line feed in a diagnostic comes from.
* `Text.splitOn_ofLines_iff`: lines are read back if there are no line feeds in them.
* `LineWriter.lines_of_receive_iff`: when what was written is read back.
-/

set_option autoImplicit false

namespace LexFront

/-! ### Texts on one line -/

namespace Text

theorem digitChar_ne_lineFeed (n : Nat) : Nat.digitChar n ≠ '\n' := by
  rcases Nat.lt_or_ge n 16 with h | h
  · have hall : ∀ m < 16, Nat.digitChar m ≠ '\n' := by decide
    exact hall n h
  · have hstar : Nat.digitChar n = '*' := by simp (disch := omega) only [Nat.digitChar, if_neg]
    rw [hstar]
    decide

theorem lineFeed_not_mem_toDigits {base : Nat} (h : 1 < base) (n : Nat) :
    '\n' ∉ Nat.toDigits base n := by
  induction n using Nat.strongRecOn with
  | ind n ih =>
    rw [Nat.toDigits_eq_if h]
    split
    · simp [(digitChar_ne_lineFeed n).symm]
    · next hn =>
      have hlt : n / base < n := Nat.div_lt_self (by omega) h
      simp [ih _ hlt, (digitChar_ne_lineFeed (n % base)).symm]

theorem lineFeed_not_mem_codePointEscape (c : Char) : '\n' ∉ codePointEscape c := by
  simp [codePointEscape, lineFeed_not_mem_toDigits]

/-- A line feed is escaped, and no other character is shown by one. -/
theorem lineFeed_not_mem_escapeChar (quotes : List Char) (escapesExtend : Bool) (c : Char) :
    '\n' ∉ escapeChar quotes escapesExtend c := by
  by_cases hc : c = '\n'
  · subst hc
    simp [escapeChar]
  · unfold escapeChar
    split
    case h_6 =>
      split
      · simp [Ne.symm hc]
      · split
        · exact lineFeed_not_mem_codePointEscape c
        · split
          · simp [Ne.symm hc]
          · exact lineFeed_not_mem_codePointEscape c
    all_goals decide

/-- **What is escaped is on one line.** -/
theorem lineFeed_not_mem_escaped (t : Text) : '\n' ∉ (escaped t).toList := by
  cases t with
  | nil => simp [escaped]
  | cons c t => simp [escaped, lineFeed_not_mem_escapeChar]

/-! ### Lines and line feeds -/

/-- Lines with a line feed behind each of them. -/
def ofLines (ls : List Text) : Text := ls.flatMap (· ++ ['\n'])

/-- Nothing between two cuts is what was cut at. -/
theorem not_mem_of_mem_splitOn {t l : Text} {c : Char} (h : l ∈ t.splitOn c) : c ∉ l := by
  induction t generalizing l with
  | nil =>
    obtain rfl : l = [] := by simpa using h
    simp
  | cons d t ih =>
    rw [List.splitOn_cons_eq_if_modifyHead] at h
    split at h
    · rcases List.mem_cons.1 h with rfl | h
      · simp
      · exact ih h
    · next hd =>
      cases hs : t.splitOn c with
      | nil => rw [hs] at h; cases h
      | cons l' ls =>
        rw [hs, List.modifyHead_cons] at h
        rw [hs] at ih
        rcases List.mem_cons.1 h with rfl | h
        · have hne : c ≠ d := by rintro rfl; simp at hd
          simpa [hne] using ih List.mem_cons_self
        · exact ih (List.mem_cons_of_mem _ h)

/-- **Lines are read back** if there are no line feeds in them. -/
theorem splitOn_ofLines_iff (ls : List Text) :
    (ofLines ls).splitOn '\n' = ls ++ [[]] ↔ ∀ l ∈ ls, '\n' ∉ l := by
  constructor
  · intro h l hl
    exact not_mem_of_mem_splitOn (t := ofLines ls) (by rw [h]; exact List.mem_append_left _ hl)
  · intro h
    induction ls with
    | nil => rfl
    | cons l ls ih =>
      obtain ⟨hl, hls⟩ := List.forall_mem_cons.1 h
      have hcons : ofLines (l :: ls) = l ++ '\n' :: ofLines ls := by simp [ofLines]
      rw [hcons, List.splitOn_append_cons_self_of_not_mem hl, ih hls, List.cons_append]

/-- There are as many line feeds as lines if there are none in the lines. -/
theorem count_ofLines_eq_iff (ls : List Text) :
    (ofLines ls).count '\n' = ls.length ↔ ∀ l ∈ ls, '\n' ∉ l := by
  have hle : ∀ ls : List Text, ls.length ≤ (ofLines ls).count '\n' := by
    intro ls
    induction ls with
    | nil => simp
    | cons l ls ih => simp [ofLines] at ih ⊢; omega
  induction ls with
  | nil => simp [ofLines]
  | cons l ls ih =>
    have hcount : (ofLines (l :: ls)).count '\n' =
        l.count '\n' + 1 + (ofLines ls).count '\n' := by
      simp [ofLines]
      omega
    have hrest := hle ls
    rw [hcount, List.length_cons, List.forall_mem_cons]
    refine Iff.trans ?_ (and_congr List.count_eq_zero ih)
    omega

end Text

theorem Location.lineFeed_not_mem_render (l : Location) : '\n' ∉ l.render.toList := by
  simp [Location.render, toString, Text.lineFeed_not_mem_toDigits]

theorem Span.lineFeed_not_mem_render (s : Span) : '\n' ∉ s.render.toList := by
  simp [Span.render, toString, Text.lineFeed_not_mem_toDigits]

namespace Diagnostic

/-- A diagnostic whose unit and reason, if it has one, are on one line each. -/
structure IsPlain (d : Diagnostic) : Prop where
  unit : '\n' ∉ d.unit.toList
  reason : ∀ reason ∈ d.reason?, '\n' ∉ reason.toList

/-- A diagnostic that shows a line feed: it is about an unexpected token of several lines. -/
def ShowsLineFeed (d : Diagnostic) : Prop := d.kind = .unexpectedToken ∧ '\n' ∈ d.text

instance (d : Diagnostic) : Decidable d.ShowsLineFeed := inferInstanceAs (Decidable (_ ∧ _))

/-- **A line feed in a diagnostic** is one of the text of an unexpected token. -/
theorem lineFeed_mem_render_iff {d : Diagnostic} (h : d.IsPlain) :
    '\n' ∈ d.render.toList ↔ d.ShowsLineFeed := by
  have hunit := h.unit
  cases d with
  | noMoreToken l =>
    simp [render, parts, ShowsLineFeed, kind, hunit, Location.lineFeed_not_mem_render]
  | unexpectedToken t s =>
    simp [render, parts, ShowsLineFeed, kind, text, hunit, Span.lineFeed_not_mem_render]
  | invalidToken i =>
    have hreason := h.reason i.error.message rfl
    simp [render, parts, ShowsLineFeed, kind, hunit, hreason, Span.lineFeed_not_mem_render,
      Text.lineFeed_not_mem_escaped]

end Diagnostic

namespace LineWriter

/-- A writer with room for everything writes a diagnostic as a whole. -/
theorem receive_of_room {w : LineWriter} (h : w.room = none) (d : Diagnostic) :
    w.receive d = { w with
      text := w.text ++ (d.render ++ "\n")
      written := w.written + 1 } := by
  rw [receive, text_put h]
  simp [Diagnostic.render, String.join_append]

theorem foldl_receive_of_room {w : LineWriter} (h : w.room = none) (ds : List Diagnostic) :
    ds.foldl DiagnosticSink.receive w = { w with
      text := w.text ++ String.join (ds.map fun d ↦ d.render ++ "\n")
      written := w.written + ds.length } := by
  induction ds generalizing w with
  | nil => simp
  | cons d ds ih =>
    have hroom : (w.receive d).room = none := by
      rw [receive_of_room h]
      exact h
    show ds.foldl DiagnosticSink.receive (w.receive d) = _
    rw [ih hroom, receive_of_room h]
    simp [String.append_assoc, Nat.add_assoc, Nat.add_comm 1]

/-- **What a writer wrote is read back** unless an unexpected token has several lines. Over a text
with room for everything no write fails, every diagnostic is counted, and what was written is the
diagnostics in order, each with a line feed behind it. There is one line for each of them, and the
lines are the diagnostics, exactly if no unexpected token has a line feed in its text; whatever the
texts of invalid tokens have in them makes no difference. -/
theorem lines_of_receive_iff (ds : List Diagnostic) (h : ∀ d ∈ ds, d.IsPlain) :
    let w := ds.foldl DiagnosticSink.receive ({} : LineWriter)
    let lines := ds.map fun d ↦ d.render.toList
    w.written = ds.length ∧ w.lastError = none ∧ w.text.toList = Text.ofLines lines ∧
      (w.text.toList.count '\n' = w.written ↔ ∀ d ∈ ds, ¬ d.ShowsLineFeed) ∧
      (w.text.toList.splitOn '\n' = lines ++ [[]] ↔ ∀ d ∈ ds, ¬ d.ShowsLineFeed) := by
  intro w lines
  have hw : w = _ := foldl_receive_of_room rfl ds
  have hwritten : w.written = ds.length := by rw [hw]; exact Nat.zero_add _
  have htext : w.text.toList = Text.ofLines lines := by
    rw [hw]
    simp [String.toList_join, Text.ofLines, lines, List.flatMap_map]
  have hlines : (∀ l ∈ lines, '\n' ∉ l) ↔ ∀ d ∈ ds, ¬ d.ShowsLineFeed := by
    rw [List.forall_mem_map]
    exact forall₂_congr fun d hd ↦ not_congr (Diagnostic.lineFeed_mem_render_iff (h d hd))
  refine ⟨hwritten, by rw [hw], htext, ?_, ?_⟩
  · rw [htext, hwritten, ← hlines, ← Text.count_ofLines_eq_iff, List.length_map]
  · rw [htext, ← hlines, Text.splitOn_ofLines_iff]

/-- An argument that runs over the end of its line is shown on one line, and read back as one. -/
theorem lines_of_receive_unterminated :
    let l := Location.start "u"
    let ds : List Diagnostic :=
      [.unexpectedToken [')'] (.covering l [')']),
        .invalidToken ⟨['"', 'a', '\n'], .covering l ['"', 'a', '\n'],
          .unterminated "quoted argument"⟩,
        .noMoreToken l]
    let w := ds.foldl DiagnosticSink.receive ({} : LineWriter)
    (∀ d ∈ ds, d.IsPlain) ∧ w.written = 3 ∧
      w.text.toList.splitOn '\n' =
        ["u: unexpected token ) at location 1:1-1:2".toList,
          "u: invalid token \\\"a\\n at location 1:1-2:1 (Unterminated quoted argument)".toList,
          "u: unexpected end of input at location 1-1".toList, []] := by
  intro l ds w
  have hplain : ∀ d ∈ ds, d.IsPlain := by
    simp only [ds, List.forall_mem_cons]
    refine ⟨⟨by decide, by decide⟩, ⟨by decide, by decide⟩, ⟨by decide, by decide⟩, by simp⟩
  obtain ⟨hwritten, -, -, -, hsplit⟩ := lines_of_receive_iff ds hplain
  refine ⟨hplain, hwritten, (hsplit.2 (by decide)).trans ?_⟩
  decide

/-- **A token of two lines** that was not expected is shown on two lines, though it is counted as
one. -/
theorem bracket_of_two_lines :
    let text : Text := ['[', '[', 'a', '\n', 'b', ']', ']']
    let d : Diagnostic := .unexpectedToken text (.covering (.start "u") text)
    let w := DiagnosticSink.receive ({} : LineWriter) d
    d.IsPlain ∧ w.written = 1 ∧ w.text.toList.count '\n' = 2 ∧
      w.text.toList.splitOn '\n' = ["u: unexpected token [[a".toList,
        "b]] at location 1:1-2:4".toList, []] := by
  refine ⟨⟨by decide, by decide⟩, rfl, by decide, by decide⟩

end LineWriter

end LexFront
