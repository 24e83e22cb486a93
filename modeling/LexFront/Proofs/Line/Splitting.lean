import LexFront.Line.Splitter
import LexFront.Proofs.Source.Reading
import LexFront.Proofs.Text.Cuts

/-!
# What a splitter takes off its decoder

The lines of a unit put together again are the characters that were read, up to the first line that
outgrows the limit. They follow each other without a gap: each has the next number, only the last
may lack its break, and a carriage return never ends a line that a line feed goes on to end.

Everything is said of all lines that are still to come (`Splitter.rest`) and comes from one lemma
on reading a line, which has one case for each way in which a line may end.

Key facts:

* `Decoder.readsLine`: how the text of a line and its end account for the characters read.
* `Splitter.flatMap_raw_rest`: the lines together are the text that could be taken.
* `Splitter.consecutive_rest`: the lines follow each other.
-/

set_option autoImplicit false

namespace LexFront

namespace Text

/-- The front of a text up to the first line with more than `limit` bytes, and of that line what
goes up to the character that is too much. The line at the start has `room` bytes left. -/
def uptoOverlong (limit room : Nat) : Text → Text
  | [] => []
  | c :: rest =>
    if isLineBreak c then c :: uptoOverlong limit limit rest
    else if room < c.utf8Size then [c]
    else c :: uptoOverlong limit (room - c.utf8Size) rest

theorem uptoOverlong_prefix (limit room : Nat) (t : Text) : uptoOverlong limit room t <+: t := by
  fun_induction uptoOverlong limit room t with
  | case1 => exact List.prefix_refl _
  | case2 room c rest _ ih => exact List.cons_prefix_cons.2 ⟨rfl, ih⟩
  | case3 room c rest _ _ => exact ⟨rest, rfl⟩
  | case4 room c rest _ _ ih => exact List.cons_prefix_cons.2 ⟨rfl, ih⟩

theorem head?_uptoOverlong (limit room : Nat) (t : Text) :
    (uptoOverlong limit room t).head? = t.head? := by
  cases t with
  | nil => rfl
  | cons c rest =>
    simp only [uptoOverlong]
    split
    · rfl
    · split <;> rfl

/-- A stretch of one line that fits is taken as it is. -/
theorem uptoOverlong_append {limit room : Nat} {s : Text} (hs : s.IsUnbroken)
    (hsize : size s ≤ room) (t : Text) :
    uptoOverlong limit room (s ++ t) = s ++ uptoOverlong limit (room - size s) t := by
  induction s generalizing room with
  | nil => simp
  | cons c s ih =>
    rw [isUnbroken_cons] at hs
    rw [size_cons] at hsize
    rw [List.cons_append, uptoOverlong, if_neg (by simp [hs.1]), if_neg (by omega),
      ih hs.2 (by omega), size_cons, Nat.sub_sub]
    rfl

/-- Of a line that outgrows its room the character that is too much is the last one taken. -/
theorem uptoOverlong_append_overlong {limit room : Nat} {front : Text} {c : Char}
    (hs : (front ++ [c]).IsUnbroken) (hfront : size front ≤ room)
    (hsize : room < size (front ++ [c])) (t : Text) :
    uptoOverlong limit room (front ++ [c] ++ t) = front ++ [c] := by
  have hf : front.IsUnbroken := fun x hx ↦ hs x (List.mem_append_left _ hx)
  have hc : isLineBreak c = false := hs c (by simp)
  rw [size_append, size_cons, size_nil] at hsize
  rw [List.append_assoc, uptoOverlong_append hf hfront, List.singleton_append, uptoOverlong,
    if_neg (by simp [hc]), if_pos (by omega)]

end Text

/-- No line of a text is longer than a limit. -/
def Text.FitsLines (limit : Nat) (t : Text) : Prop :=
  ∀ s, s <:+: t → Text.IsUnbroken s → Text.size s ≤ limit

/-- A text that is shorter than a limit has no line that is longer. -/
theorem Text.fitsLines_of_size_le {limit : Nat} {t : Text} (h : Text.size t ≤ limit) :
    t.FitsLines limit := by
  rintro s ⟨front, back, rfl⟩ -
  simp only [Text.size_append] at h
  omega

/-- A break ends in one of the characters that end a line. -/
theorem Terminator.isLineBreak_of_getLast? {t : Terminator} (ht : t ≠ .none) {text : Text}
    {b : Char} (hb : (text ++ t.text).getLast? = some b) : Text.isLineBreak b := by
  cases t with
  | none => exact absurd rfl ht
  | lf =>
    obtain rfl : '\n' = b := by simpa [Terminator.text] using hb
    rfl
  | cr =>
    obtain rfl : '\r' = b := by simpa [Terminator.text] using hb
    rfl
  | crLf =>
    obtain rfl : '\n' = b := by simpa [Terminator.text] using hb
    rfl

namespace Line

/-- Lines that follow each other from line `n` of a unit on. -/
inductive Consecutive (unit : String) : Nat → List Line → Prop where
  | nil {n : Nat} : Consecutive unit n []
  /-- The last line may lack its break, but then it is not empty. -/
  | last {n : Nat} {text : Text} : text.IsUnbroken → text ≠ [] →
      Consecutive unit n [⟨⟨unit, n, 1⟩, text, .none⟩]
  /-- A carriage return ends a line only if no line feed comes after it. -/
  | cons {n : Nat} {text : Text} {t : Terminator} {rest : List Line} : text.IsUnbroken →
      t ≠ .none → (t = .cr → (rest.flatMap Line.raw).head? ≠ some '\n') →
      Consecutive unit (n + 1) rest → Consecutive unit n (⟨⟨unit, n, 1⟩, text, t⟩ :: rest)

end Line

namespace Decoder

/-- How a line accounts for the characters of a decoder, by the way in which it ends. -/
inductive ReadsLine (room : Nat) (d : Decoder) : Text × LineEnd × Decoder → Prop where
  | terminated {text : Text} {t : Terminator} {d' : Decoder} : text.IsUnbroken →
      Text.size text ≤ room → t ≠ .none → (t = .cr → d'.text.head? ≠ some '\n') →
      d.read = (text ++ t.text ++ d'.text, d'.ending) →
      ReadsLine room d (text, .terminated t, d')
  | terminatedThenFault {text : Text} {e : SourceError} {d' : Decoder} : text.IsUnbroken →
      Text.size text ≤ room → d.read = (text ++ ['\r'], some e) → d'.text = [] →
      ReadsLine room d (text, .terminatedThenFault e, d')
  | exhausted {text : Text} {d' : Decoder} : text.IsUnbroken → Text.size text ≤ room →
      d.read = (text, none) → d'.text = [] → ReadsLine room d (text, .exhausted, d')
  | fault {text : Text} {e : SourceError} {d' : Decoder} : text.IsUnbroken →
      Text.size text ≤ room → d.read = (text, some e) → d'.text = [] →
      ReadsLine room d (text, .fault e, d')
  | tooLong {front : Text} {c : Char} {d' : Decoder} : (front ++ [c]).IsUnbroken →
      Text.size front ≤ room → room < Text.size (front ++ [c]) →
      d.text = front ++ [c] ++ d'.text → ReadsLine room d (front ++ [c], .tooLong, d')

/-- A character in front of a line is the first of its text. -/
theorem ReadsLine.cons {room : Nat} {d d' : Decoder} {c : Char} (hn : d.next = (.char c, d'))
    (hc : Text.isLineBreak c = false) (hroom : c.utf8Size ≤ room) {text : Text}
    {p : LineEnd × Decoder} (h : ReadsLine (room - c.utf8Size) d' (text, p)) :
    ReadsLine room d (c :: text, p) := by
  have hread := read_of_next_char hn
  have hpair : d'.read = (d'.text, d'.ending) := rfl
  cases h with
  | terminated hu hs ht hcr hr =>
    rw [hpair, Prod.mk.injEq] at hr
    exact .terminated (by simp [hc, hu]) (by rw [Text.size_cons]; omega) ht hcr
      (by rw [hread, hr.1, hr.2]; rfl)
  | terminatedThenFault hu hs hr hnil =>
    rw [hpair, Prod.mk.injEq] at hr
    exact .terminatedThenFault (by simp [hc, hu]) (by rw [Text.size_cons]; omega)
      (by rw [hread, hr.1, hr.2]; rfl) hnil
  | exhausted hu hs hr hnil =>
    rw [hpair, Prod.mk.injEq] at hr
    exact .exhausted (by simp [hc, hu]) (by rw [Text.size_cons]; omega)
      (by rw [hread, hr.1, hr.2]) hnil
  | fault hu hs hr hnil =>
    rw [hpair, Prod.mk.injEq] at hr
    exact .fault (by simp [hc, hu]) (by rw [Text.size_cons]; omega)
      (by rw [hread, hr.1, hr.2]) hnil
  | @tooLong front e _ hu hf hs ht =>
    refine @ReadsLine.tooLong _ _ (c :: front) _ _ ?_ ?_ ?_ ?_
    · rw [List.cons_append, Text.isUnbroken_cons]
      exact ⟨hc, hu⟩
    · rw [Text.size_cons]
      omega
    · rw [List.cons_append, Text.size_cons]
      omega
    · rw [text, hread, ht]
      rfl

/-- A line feed is looked for after a carriage return, and taken if it is there. -/
theorem readsLine_afterReturn {room : Nat} {d d' : Decoder} (hn : d.next = (.char '\r', d')) :
    ReadsLine room d ([], d'.afterReturn) := by
  have hread := read_of_next_char hn
  have hsize : Text.size [] ≤ room := Nat.zero_le _
  simp only [afterReturn]
  split
  · next d₁ hp =>
    have hn₁ : d₁.next = (.char '\n', d₁.next.2) := by simp [next, peeked_of_peek_char hp]
    have hread₁ := read_of_next_char hn₁
    rw [(read_peek hp).1] at hread₁
    refine .terminated (by simp) hsize (by simp) (by simp) ?_
    rw [hread, text, ending, hread₁]
    rfl
  · next e d₁ hp =>
    obtain ⟨hr₁, hr⟩ := read_peek_fault hp
    refine .terminatedThenFault (by simp) hsize ?_ (by rw [text, hr₁])
    rw [hread, text, ending, hr]
    rfl
  · next r d₁ hlf hfault hp =>
    cases r with
    | char c =>
      obtain ⟨hr, hhead⟩ := read_peek hp
      have hhead₁ : d₁.text.head? = some c := by rw [text, hr]; exact hhead
      refine .terminated (by simp) hsize (by simp) (fun _ h ↦ ?_) ?_
      · rw [hhead₁, Option.some.injEq] at h
        exact hlf (by rw [h])
      · rw [hread, text, ending, ← hr]
        rfl
    | exhausted =>
      obtain ⟨hr₁, hr⟩ := read_peek_exhausted hp
      refine .terminated (by simp) hsize (by simp) (fun _ h ↦ ?_) ?_
      · simp [text, hr₁] at h
      · rw [hread, text, ending, hr, text, ending, hr₁]
        rfl
    | fault e => exact (hfault e rfl).elim

theorem readsLine (room : Nat) (d : Decoder) : ReadsLine room d (d.readLine room) := by
  fun_induction readLine room d with
  | case1 room d d' h =>
    exact .exhausted (by simp) (Nat.zero_le _) (read_of_next_exhausted h)
      (by rw [text, read_of_next_exhausted_snd h])
  | case2 room d e d' h =>
    exact .fault (by simp) (Nat.zero_le _) (read_of_next_fault h)
      (by rw [text, read_of_next_fault_snd h])
  | case3 room d d' h =>
    exact .terminated (by simp) (Nat.zero_le _) (by simp) (by simp) (read_of_next_char h)
  | case4 room d d' h _ => exact readsLine_afterReturn h
  | case5 room d c d' h hlf hcr hroom =>
    refine @ReadsLine.tooLong _ _ [] _ _ ?_ (Nat.zero_le _) (by simpa using hroom) ?_
    · simp [Text.isLineBreak, hlf, hcr]
    · rw [text, read_of_next_char h]
      rfl
  | case6 room d c d' h hlf hcr hroom text rest hr ih =>
    rw [hr] at ih
    exact .cons h (by simp [Text.isLineBreak, hlf, hcr]) (Nat.not_lt.1 hroom) ih

end Decoder

namespace Splitter

/-- What the lines that are still to come are made of. -/
def text (s : Splitter) : Text :=
  if s.done then [] else Text.uptoOverlong s.limit s.limit s.decoder.text

theorem rest_of_next_none {s s' : Splitter} (h : s.next = (none, s')) : s.rest = ([], s') := by
  rw [rest]
  split <;> simp_all

theorem rest_of_next_some {s s' : Splitter} {l : Line} (h : s.next = (some l, s')) :
    s.rest = (l :: s'.rest.1, s'.rest.2) := by
  rw [rest]
  split <;> simp_all

theorem rest_of_done {s : Splitter} (h : s.done = true) : s.rest = ([], s) :=
  rest_of_next_none (next_of_done h)

/-- Why a splitter stops, said of the characters that it was given. -/
inductive Stops (s : Splitter) (lines : List Line) (fault : Option SplitError) : Prop where
  /-- Everything was taken, and the decoder may have failed after it. -/
  | read : lines.flatMap Line.raw = s.decoder.text → fault = s.decoder.ending.map .source →
      Stops s lines fault
  /-- A line did not fit. The character that was too much for it is the last one taken. -/
  | overlong {front text : Text} {c : Char} (n : Nat) : fault = some (.lineTooLong n s.limit) →
      lines.flatMap Line.raw = front ++ text ++ [c] →
      (∀ b, front.getLast? = some b → Text.isLineBreak b) → (text ++ [c]).IsUnbroken →
      Text.size text ≤ s.limit → s.limit < Text.size (text ++ [c]) → Stops s lines fault

/-- What handing out a line may do. -/
inductive HandsOut (s : Splitter) : Option Line × Splitter → Prop where
  | done : s.done = true → HandsOut s (none, s)
  /-- A line with its break, and more may follow. -/
  | line {text : Text} {t : Terminator} {d : Decoder} : s.done = false → text.IsUnbroken →
      Text.size text ≤ s.limit → t ≠ .none → (t = .cr → d.text.head? ≠ some '\n') →
      s.decoder.read = (text ++ t.text ++ d.text, d.ending) →
      HandsOut s (some ⟨⟨s.unit, s.line, 1⟩, text, t⟩, s.afterLine d)
  /-- Nothing follows any more; there may have been a last line. -/
  | stop {l : Option Line} {s' : Splitter} : s.done = false → s'.done = true →
      l.toList.flatMap Line.raw = s.text → Line.Consecutive s.unit s.line l.toList →
      s.decoder.text = l.toList.flatMap Line.raw ++ s'.decoder.text →
      Stops s l.toList s'.fault → HandsOut s (l, s')

/-- The last line holds what was read of it. -/
theorem flatMap_raw_lastLine? (location : Location) (text : Text) :
    (lastLine? location text).toList.flatMap Line.raw = text := by
  simp only [lastLine?]
  split
  · next h => exact (List.isEmpty_iff.1 h).symm
  · simp [Line.raw, Terminator.text]

theorem consecutive_lastLine? {unit : String} {n : Nat} {text : Text} (h : text.IsUnbroken) :
    Line.Consecutive unit n (lastLine? ⟨unit, n, 1⟩ text).toList := by
  simp only [lastLine?]
  split
  · exact .nil
  · next hne => exact .last h (by simpa using hne)

theorem handsOut_next (s : Splitter) : HandsOut s s.next := by
  simp only [next]
  split
  · next hd => exact .done hd
  · next hd =>
    have hdone : s.done = false := by simpa using hd
    have htext : s.text = Text.uptoOverlong s.limit s.limit s.decoder.text := by
      simp [text, hdone]
    -- A line that fits and ends the input is all that can be taken.
    have hall : ∀ {t : Text}, t.IsUnbroken → Text.size t ≤ s.limit → s.decoder.text = t →
        s.text = t := by
      intro t hu hs ht
      have h := @Text.uptoOverlong_append s.limit _ _ hu hs []
      rw [List.append_nil] at h
      rw [htext, ht, h, Text.uptoOverlong, List.append_nil]
    have h := Decoder.readsLine s.limit s.decoder
    generalize s.decoder.readLine s.limit = r at h
    cases h with
    | terminated hu hs ht hcr hread => exact .line hdone hu hs ht hcr hread
    | @terminatedThenFault text e d hu hs hread hnil =>
      have hraw : (⟨⟨s.unit, s.line, 1⟩, text, .cr⟩ : Line).raw = s.decoder.text := by
        rw [Decoder.text, hread]
        rfl
      refine .stop hdone rfl ?_ (.cons hu (by simp) (by simp) .nil) ?_ (.read ?_ ?_)
      · rw [Option.toList_some, List.flatMap_singleton, hraw, htext, Decoder.text, hread,
          Text.uptoOverlong_append hu hs]
        rfl
      · rw [Option.toList_some, List.flatMap_singleton, hraw]
        simp [afterLine, hnil]
      · rw [Option.toList_some, List.flatMap_singleton, hraw]
      · rw [Decoder.ending, hread]
        rfl
    | exhausted hu hs hread hnil =>
      refine .stop hdone rfl ?_ (consecutive_lastLine? hu) ?_ (.read ?_ ?_)
      · rw [flatMap_raw_lastLine?, hall hu hs (by rw [Decoder.text, hread])]
      · rw [flatMap_raw_lastLine?, Decoder.text, hread]
        simp [stop, hnil]
      · rw [flatMap_raw_lastLine?, Decoder.text, hread]
      · rw [Decoder.ending, hread]
        rfl
    | fault hu hs hread hnil =>
      refine .stop hdone rfl ?_ (consecutive_lastLine? hu) ?_ (.read ?_ ?_)
      · rw [flatMap_raw_lastLine?, hall hu hs (by rw [Decoder.text, hread])]
      · rw [flatMap_raw_lastLine?, Decoder.text, hread]
        simp [stop, hnil]
      · rw [flatMap_raw_lastLine?, Decoder.text, hread]
      · rw [Decoder.ending, hread]
        rfl
    | tooLong hu hf hs hread =>
      refine .stop hdone rfl ?_ (consecutive_lastLine? hu) ?_
        (@Stops.overlong _ _ _ [] _ _ s.line rfl ?_ (by simp) hu hf hs)
      · rw [flatMap_raw_lastLine?, htext, hread, Text.uptoOverlong_append_overlong hu hf hs]
      · rw [flatMap_raw_lastLine?, hread]
        rfl
      · rw [flatMap_raw_lastLine?]
        rfl

/-- The text of a line that is followed by more, in front of the text that follows. -/
theorem text_of_line {s : Splitter} {text : Text} {t : Terminator} {d : Decoder}
    (hd : s.done = false) (hu : text.IsUnbroken) (hs : Text.size text ≤ s.limit)
    (ht : t ≠ .none) (hread : s.decoder.read = (text ++ t.text ++ d.text, d.ending)) :
    s.text = text ++ t.text ++ (s.afterLine d).text := by
  have hafter : (s.afterLine d).done = false := hd
  have hbreak : ∀ room, Text.uptoOverlong s.limit room (t.text ++ d.text) =
      t.text ++ Text.uptoOverlong s.limit s.limit d.text := by
    intro room
    cases t with
    | none => exact absurd rfl ht
    | lf => rfl
    | cr => rfl
    | crLf => rfl
  simp only [Splitter.text, hd, hafter, Bool.false_eq_true, if_false]
  rw [Decoder.text, hread, List.append_assoc, Text.uptoOverlong_append hu hs, hbreak,
    List.append_assoc]
  rfl

/-- **The lines of a unit are its text**, and they follow each other. -/
theorem rest_spec (s : Splitter) :
    s.rest.1.flatMap Line.raw = s.text ∧ Line.Consecutive s.unit s.line s.rest.1 := by
  fun_induction rest s with
  | case1 s s' h =>
    have hout := handsOut_next s
    rw [h] at hout
    cases hout with
    | done hd => exact ⟨by simp [text, hd], .nil⟩
    | stop hd _ htext hlines _ _ => exact ⟨by simpa using htext, hlines⟩
  | case2 s l s' h ls s'' hrest ih =>
    have hout := handsOut_next s
    rw [h] at hout
    rw [hrest] at ih
    cases hout with
    | @line _ _ d hd hu hs ht hcr hread =>
      have htext := text_of_line hd hu hs ht hread
      refine ⟨?_, .cons hu ht (fun h ↦ ?_) ih.2⟩
      · rw [List.flatMap_cons, ih.1, htext]
        rfl
      · have hafter : (s.afterLine d).done = false := hd
        rw [ih.1, text, hafter, if_neg (by simp), Text.head?_uptoOverlong]
        exact hcr h
    | stop hd hd' htext hlines _ _ =>
      rw [rest_of_done hd', Prod.mk.injEq] at hrest
      rw [← hrest.1]
      exact ⟨by simpa using htext, hlines⟩

theorem flatMap_raw_rest (s : Splitter) : s.rest.1.flatMap Line.raw = s.text := (rest_spec s).1

theorem consecutive_rest (s : Splitter) : Line.Consecutive s.unit s.line s.rest.1 :=
  (rest_spec s).2

/-- **What the lines do not hold is left to the decoder.** -/
theorem text_eq_rest {s : Splitter} (hd : s.done = false) :
    s.decoder.text = s.rest.1.flatMap Line.raw ++ s.rest.2.decoder.text := by
  fun_induction rest s with
  | case1 s s' h =>
    have hout := handsOut_next s
    rw [h] at hout
    cases hout with
    | done hd' => rw [hd] at hd'; cases hd'
    | stop _ _ _ _ htext _ => exact htext
  | case2 s l s' h ls s'' hrest ih =>
    have hout := handsOut_next s
    rw [h] at hout
    rw [hrest] at ih
    cases hout with
    | @line text t d _ _ _ _ _ hread =>
      have hafter : d.text = ls.flatMap Line.raw ++ s''.decoder.text := ih hd
      rw [Decoder.text, hread, hafter, List.flatMap_cons, List.append_assoc, List.append_assoc]
      simp [Line.raw]
    | stop _ hd' _ _ htext _ =>
      rw [rest_of_done hd', Prod.mk.injEq] at hrest
      rw [← hrest.1, ← hrest.2]
      exact htext

/-- **A splitter stops because a line does not fit, or because its decoder has no more**; then the
lines are all that was read. -/
theorem stops_rest {s : Splitter} (hd : s.done = false) : Stops s s.rest.1 s.rest.2.fault := by
  fun_induction rest s with
  | case1 s s' h =>
    have hout := handsOut_next s
    rw [h] at hout
    cases hout with
    | done hd' => rw [hd] at hd'; cases hd'
    | stop _ _ _ _ _ hstop => exact hstop
  | case2 s l s' h ls s'' hrest ih =>
    have hout := handsOut_next s
    rw [h] at hout
    rw [hrest] at ih
    cases hout with
    | @line text t d _ _ _ ht _ hread =>
      have hdtext : s.decoder.text = text ++ t.text ++ d.text := by rw [Decoder.text, hread]
      have hdending : s.decoder.ending = d.ending := by rw [Decoder.ending, hread]
      cases ih hd with
      | read htext hfault =>
        refine .read ?_ (hdending ▸ hfault)
        rw [List.flatMap_cons, htext, hdtext]
        rfl
      | @overlong front _ _ n hfault htext hfront hu hf hs =>
        refine @Stops.overlong _ _ _ (text ++ t.text ++ front) _ _ n hfault ?_ ?_ hu hf hs
        · rw [List.flatMap_cons, htext]
          simp [Line.raw]
        · intro b hb
          cases hl : front.getLast? with
          | none =>
            rw [List.getLast?_eq_none_iff.1 hl, List.append_nil] at hb
            exact t.isLineBreak_of_getLast? ht hb
          | some x =>
            rw [List.getLast?_append, hl] at hb
            exact hfront b (hl.trans hb)
    | stop _ hd' _ _ _ hstop =>
      rw [rest_of_done hd', Prod.mk.injEq] at hrest
      rw [← hrest.1, ← hrest.2]
      exact hstop

/-- **Lines that fit are all taken**, and the splitter stops at the end of its decoder. -/
theorem rest_of_fitsLines {s : Splitter} (hd : s.done = false) {t : Text}
    (hread : s.decoder.read = (t, none)) (ht : t.FitsLines s.limit) :
    s.rest.1.flatMap Line.raw = t ∧ s.rest.2.fault = none := by
  have htext : s.decoder.text = t := by rw [Decoder.text, hread]
  have hending : s.decoder.ending = none := by rw [Decoder.ending, hread]
  cases stops_rest hd with
  | read hraw hfault => exact ⟨hraw.trans htext, hfault.trans (by rw [hending]; rfl)⟩
  | @overlong front text c n hfault hraw _ hu _ hlong =>
    -- The line that did not fit is one of the text.
    have hinfix : text ++ [c] <:+: t := by
      rw [← htext, text_eq_rest hd, hraw]
      exact ⟨front, s.rest.2.decoder.text, by simp⟩
    exact absurd (ht _ hinfix hu) (Nat.not_le.2 hlong)

end Splitter

end LexFront
