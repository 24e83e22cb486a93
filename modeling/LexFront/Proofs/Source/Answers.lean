import LexFront.Proofs.Source.Reading

/-!
# What a decoder answers

A decoder is asked for its next character or for a look at it, in any order. What it answers is
settled when it is opened: the longest stretch of UTF-8 at the start of its bytes, as far as the
limit goes, and after that, once, the failure if there is one. UTF-8 is taken from the encoding
here, so that the table of widths and the arithmetic of the decoder are measured against something
that is not the decoder.

`answer` says what a given text with a given failure behind it must answer. That the decoder does
the same (`call_eq_answer`) needs no knowledge of bytes; which text and which failure it is
(`read_spec`) needs no knowledge of the calls.

Key facts:

* `call_eq_answer`: a decoder answers for what it still has to read.
* `read_spec`: it reads the longest UTF-8, and the failure tells why it stopped there.
* `answers_of_feed`: both together, for any bytes in any chunks.
-/

set_option autoImplicit false

namespace LexFront

/-- A text whose UTF-8 form is the longest that some bytes start with. -/
structure Text.IsLongestFront (t : Text) (bytes : List UInt8) : Prop where
  encode_prefix : Text.encode t <+: bytes
  size_le : ∀ s, Text.encode s <+: bytes → Text.size s ≤ Text.size t

/-- Reading on past a failed read loses no byte. -/
theorem Feed.bytes_of_front_failure_rest {f rest : Feed} {m : String}
    (h : f.front = .failure m rest) :
    rest.bytes = f.bytes ∧ ∀ m', .failure m' ∈ rest → .failure m' ∈ f := by
  fun_induction front f with
  | case1 => cases h
  | case2 => cases h
  | case3 r ih => exact (ih h).imp id fun hmem m' hm ↦ List.mem_cons_of_mem _ (hmem m' hm)
  | case4 r ih => exact (ih h).imp id fun hmem m' hm ↦ List.mem_cons_of_mem _ (hmem m' hm)
  | case5 m' r =>
    cases h
    exact ⟨rfl, fun m' hm ↦ List.mem_cons_of_mem _ hm⟩

namespace Decoder

/-! ### Calls and answers -/

/-- What may be asked of a decoder. -/
inductive Call where
  | next
  | peek
  deriving DecidableEq, Repr

/-- Asks one thing. -/
def call (d : Decoder) : Call → Reading × Decoder
  | .next => d.next
  | .peek => d.peek

/-- Asks some things, one after the other. -/
def calls (d : Decoder) : List Call → List Reading × Decoder
  | [] => ([], d)
  | c :: cs => ((d.call c).1 :: ((d.call c).2.calls cs).1, ((d.call c).2.calls cs).2)

namespace Reading

/-- The character of an answer, if it is one. -/
def char? : Reading → Option Char
  | char c => some c
  | _ => none

/-- The failure of an answer, if it is one. -/
def fault? : Reading → Option SourceError
  | fault e => some e
  | _ => none

end Reading

/-- The characters that were handed out, which are the answers to `next` and not those to `peek`. -/
def handedOut (cs : List Call) (answers : List Reading) : Text :=
  (cs.zip answers).filterMap fun (c, r) ↦ if c = .next then r.char? else none

/-- What a text with a failure behind it answers, and what is left of both. -/
def answer : Text × Option SourceError → Call → Reading × (Text × Option SourceError)
  | (c :: t, e), .next => (.char c, t, e)
  | (c :: t, e), .peek => (.char c, c :: t, e)
  | ([], some e), _ => (.fault e, [], none)
  | ([], none), _ => (.exhausted, [], none)

/-- What it answers to some calls, one after the other. -/
def answers (s : Text × Option SourceError) : List Call → List Reading
  | [] => []
  | c :: cs => (answer s c).1 :: answers (answer s c).2 cs

/-- **A decoder answers for what it still has to read**, and looking ahead is no reading. -/
theorem call_eq_answer (d : Decoder) (c : Call) :
    (d.call c).1 = (answer d.read c).1 ∧ (d.call c).2.read = (answer d.read c).2 := by
  cases c with
  | next =>
    show d.next.1 = _ ∧ d.next.2.read = _
    rcases hn : d.next with ⟨c | - | e, d'⟩
    · rw [read_of_next_char hn]
      exact ⟨rfl, rfl⟩
    · rw [read_of_next_exhausted hn]
      exact ⟨rfl, read_of_next_exhausted_snd hn⟩
    · rw [read_of_next_fault hn]
      exact ⟨rfl, read_of_next_fault_snd hn⟩
  | peek =>
    show d.peek.1 = _ ∧ d.peek.2.read = _
    rcases hp : d.peek with ⟨c | - | e, d'⟩
    · obtain ⟨hread, hhead⟩ := read_peek hp
      obtain ⟨t, ht⟩ := List.head?_eq_some_iff.1 hhead
      have hd : d.read = (c :: t, d.ending) := by rw [← ht]; rfl
      rw [hd]
      exact ⟨rfl, hread.trans hd⟩
    · obtain ⟨hread, hd⟩ := read_peek_exhausted hp
      rw [hd]
      exact ⟨rfl, hread⟩
    · obtain ⟨hread, hd⟩ := read_peek_fault hp
      rw [hd]
      exact ⟨rfl, hread⟩

theorem calls_eq_answers (d : Decoder) (cs : List Call) : (d.calls cs).1 = answers d.read cs := by
  induction cs generalizing d with
  | nil => rfl
  | cons c cs ih =>
    obtain ⟨hfirst, hrest⟩ := call_eq_answer d c
    show (d.call c).1 :: ((d.call c).2.calls cs).1 = (answer d.read c).1 :: answers _ cs
    rw [hfirst, ih, hrest]

/-! ### What the answers come to -/

/-- Behind the text the first answer is the failure, and after that there is only the end. -/
theorem answers_nil (e : Option SourceError) (c : Call) (cs : List Call) :
    answers ([], e) (c :: cs) =
      e.elim .exhausted .fault :: List.replicate cs.length .exhausted := by
  induction cs generalizing e c with
  | nil => cases e <;> rfl
  | cons c' cs ih =>
    have hrest : answers ([], none) (c' :: cs) = List.replicate (c' :: cs).length .exhausted :=
      ih none c'
    cases e with
    | none => exact congrArg (.exhausted :: ·) hrest
    | some e => exact congrArg (.fault e :: ·) hrest

/-- **The characters handed out are the front of the text**, one for each time that one was asked
for. -/
theorem handedOut_answers (t : Text) (e : Option SourceError) (cs : List Call) :
    handedOut cs (answers (t, e) cs) = t.take (cs.count .next) := by
  induction cs generalizing t with
  | nil => simp [handedOut, answers]
  | cons c cs ih =>
    cases t with
    | nil =>
      rw [answers_nil, List.take_nil, handedOut, List.filterMap_eq_nil_iff]
      rintro ⟨c', r⟩ hr
      have hmem := (List.of_mem_zip hr).2
      have hr' : r.char? = none := by
        rcases List.mem_cons.1 hmem with rfl | hmem
        · cases e <;> rfl
        · rw [List.eq_of_mem_replicate hmem]
          rfl
      show (if c' = .next then r.char? else none) = none
      rw [hr', ite_self]
    | cons x t =>
      cases c with
      | next =>
        rw [List.count_cons_self, List.take_succ_cons]
        exact congrArg (x :: ·) (ih t)
      | peek =>
        rw [List.count_cons_of_ne (by decide)]
        exact ih (x :: t)

/-- **The failure is answered once**, as soon as there is an answer that is no character. -/
theorem faults_answers (t : Text) (e : Option SourceError) (cs : List Call) :
    (answers (t, e) cs).filterMap Reading.fault? =
      if (answers (t, e) cs).all (·.char?.isSome) then [] else e.toList := by
  induction cs generalizing t with
  | nil => rfl
  | cons c cs ih =>
    cases t with
    | nil =>
      rw [answers_nil]
      cases e <;> simp [Reading.fault?, Reading.char?]
    | cons x t =>
      cases c with
      | next => exact ih t
      | peek => exact ih (x :: t)

/-- Whoever asks for more than the text has is told of the failure. -/
theorem faults_answers_of_lt {t : Text} (e : Option SourceError) {cs : List Call}
    (h : t.length < cs.count .next) :
    (answers (t, e) cs).filterMap Reading.fault? = e.toList := by
  induction cs generalizing t with
  | nil => exact absurd h (Nat.not_lt_zero _)
  | cons c cs ih =>
    cases t with
    | nil =>
      rw [answers_nil]
      cases e <;> simp [Reading.fault?]
    | cons x t =>
      cases c with
      | next =>
        rw [List.count_cons_self, List.length_cons] at h
        exact ih (Nat.lt_of_succ_lt_succ h)
      | peek =>
        rw [List.count_cons_of_ne (by decide)] at h
        exact ih h

/-- After an answer that is no character there is only the end. -/
theorem eq_exhausted_of_answers {t : Text} {e : Option SourceError} {cs : List Call}
    {front back : List Reading} {a : Reading} (h : answers (t, e) cs = front ++ a :: back)
    (ha : a.char? = none) : ∀ b ∈ back, b = .exhausted := by
  induction cs generalizing t front with
  | nil => simp [answers] at h
  | cons c cs ih =>
    cases t with
    | nil =>
      rw [answers_nil] at h
      cases front with
      | nil =>
        obtain ⟨-, hback⟩ := List.cons.inj h
        intro b hb
        exact List.eq_of_mem_replicate (hback ▸ hb)
      | cons r front =>
        obtain ⟨-, hback⟩ := List.cons.inj h
        intro b hb
        refine List.eq_of_mem_replicate (n := cs.length) ?_
        rw [hback]
        exact List.mem_append_right front (List.mem_cons_of_mem a hb)
    | cons x t =>
      have hfirst : (answer (x :: t, e) c).1 = .char x := by cases c <;> rfl
      cases front with
      | nil =>
        obtain ⟨rfl, -⟩ := List.cons.inj h
        rw [hfirst] at ha
        cases ha
      | cons r front =>
        obtain ⟨-, hrest⟩ := List.cons.inj h
        cases c with
        | next => exact ih hrest
        | peek => exact ih hrest

/-- **A look changes no other answer**, unless it is the one that is told of the failure. -/
theorem answers_of_peek {s : Text × Option SourceError} {before after : List Call}
    {front back : List Reading} {a : Reading}
    (h : answers s (before ++ .peek :: after) = front ++ a :: back)
    (hlength : front.length = before.length) (ha : a.fault? = none) :
    answers s (before ++ after) = front ++ back := by
  induction before generalizing s front with
  | nil =>
    obtain rfl := List.eq_nil_of_length_eq_zero hlength
    obtain ⟨hlook, hrest⟩ := List.cons.inj h
    have hs : (answer s .peek).2 = s := by
      obtain ⟨_ | ⟨x, t⟩, _ | e⟩ := s
      · rfl
      · rw [← hlook] at ha
        cases ha
      · rfl
      · rfl
    rw [hs] at hrest
    exact hrest
  | cons c before ih =>
    cases front with
    | nil => cases hlength
    | cons r front =>
      obtain ⟨hfirst, hrest⟩ := List.cons.inj h
      have hih := ih hrest (Nat.succ.inj hlength)
      show (answer s c).1 :: answers _ (before ++ after) = r :: (front ++ back)
      rw [hfirst, hih]

/-! ### What there is to read -/

/-- The second decoder is the first one further on, and the bytes in between have been counted. -/
structure CountsTo (d d' : Decoder) : Prop extends d.MovesTo d' where
  total : d'.offset + d'.feed.bytes.length = d.offset + d.feed.bytes.length
  fits : d.offset ≤ d.limit → d'.offset ≤ d'.limit
  failure : ∀ m, .failure m ∈ d'.feed → .failure m ∈ d.feed

theorem CountsTo.refl (d : Decoder) : d.CountsTo d := ⟨.refl d, rfl, id, fun _ ↦ id⟩

theorem CountsTo.trans {d d' d'' : Decoder} (h : d.CountsTo d') (h' : d'.CountsTo d'') :
    d.CountsTo d'' :=
  ⟨h.toMovesTo.trans h'.toMovesTo, h'.total.trans h.total, fun hd ↦ h'.fits (h.fits hd),
    fun m hm ↦ h.failure m (h'.failure m hm)⟩

theorem countsTo_readByte (d : Decoder) : d.CountsTo d.readByte.2 := by
  have hmove := movesTo_readByte d
  simp only [readByte] at hmove ⊢
  split at hmove
  · exact .refl d
  · next hf =>
    obtain ⟨hbytes, hmem⟩ := Feed.bytes_of_front_failure_rest hf
    exact ⟨hmove, by simp only [hbytes], id, hmem⟩
  · next b rest hf =>
    split at hmove
    · next hlimit =>
      rw [if_pos hlimit]
      exact .refl d
    · next hlimit =>
      rw [if_neg hlimit]
      refine ⟨hmove, ?_, fun _ ↦ Nat.lt_of_not_le hlimit, fun m ↦ Feed.failure_mem_of_front_byte hf⟩
      simp only [Feed.bytes_of_front_byte hf, List.length_cons]
      omega

theorem countsTo_readBytes (n : Nat) (d : Decoder) : d.CountsTo (readBytes n d).2 := by
  induction n generalizing d with
  | zero => exact .refl d
  | succ n ih =>
    have hb := countsTo_readByte d
    simp only [readBytes]
    split
    · next h => rwa [h] at hb
    · next h => rwa [h] at hb
    · next d' h =>
      rw [h] at hb
      have hr := hb.trans (ih d')
      split <;> next h' => rwa [h'] at hr

theorem countsTo_decodeOne (d : Decoder) : d.CountsTo d.decodeOne.2 := by
  have hb := countsTo_readByte d
  simp only [decodeOne]
  split
  · next h => rwa [h] at hb
  · next h => rwa [h] at hb
  · next d' h =>
    rw [h] at hb
    split
    · exact hb
    · next n _ =>
      have hr := hb.trans (countsTo_readBytes n d')
      split
      · next h' => rwa [h'] at hr
      · next h' =>
        rw [h'] at hr
        split
        · split <;> exact hr
        · exact hr

theorem countsTo_of_decodeOne {d d' : Decoder} {r : Reading} (h : d.decodeOne = (r, d')) :
    d.CountsTo d' := by
  have hcount := countsTo_decodeOne d
  rwa [h] at hcount

/-- A character counts for its bytes. -/
theorem offset_of_decodeOne {d d' : Decoder} {c : Char} (h : d.decodeOne = (.char c, d')) :
    d'.offset = d.offset + c.utf8Size := by
  have htotal := (countsTo_of_decodeOne h).total
  rw [bytes_decodeOne h, List.length_append, String.length_utf8EncodeChar] at htotal
  omega

/-- **No more is read than the limit allows.** -/
theorem offset_add_size_text_le {d : Decoder} (hd : d.IsLevel) (h : d.offset ≤ d.limit) :
    d.offset + Text.size d.text ≤ d.limit := by
  fun_induction read d with
  | case1 d c d' hn text ending hr ih =>
    obtain ⟨hone, hd'⟩ := hd.next_char hn
    have hcount := countsTo_of_decodeOne hone
    have hrest := ih hd' (hcount.fits h)
    rw [offset_of_decodeOne hone, hcount.limit] at hrest
    rw [Decoder.text, read_of_next_char hn, Text.size_cons, ← Nat.add_assoc]
    exact hrest
  | case2 d d' hn =>
    rw [Decoder.text, read_of_next_exhausted hn]
    exact h
  | case3 d e d' hn =>
    rw [Decoder.text, read_of_next_fault hn]
    exact h

/-- A failure that a decoder has at its limit, with more bytes behind it. -/
structure IsPastLimit (d : Decoder) (e : SourceError) : Prop where
  eq : e = .unitTooLarge (d.limit + 1) d.limit
  offset : d.offset = d.limit
  more : d.feed.bytes ≠ []

theorem isPastLimit_readByte {d d' : Decoder} {e : SourceError} (hf : ∀ m, .failure m ∉ d.feed)
    (hle : d.offset ≤ d.limit) (h : d.readByte = (.fault e, d')) : d'.IsPastLimit e := by
  simp only [readByte] at h
  split at h
  · cases h
  · next hfront => exact absurd (Feed.bytes_of_front_failure hfront) (hf _)
  · next b rest hfront =>
    split at h
    · next hlimit =>
      cases h
      have hoffset := Nat.le_antisymm hle hlimit
      have hmore : d.feed.bytes ≠ [] := by
        rw [Feed.bytes_of_front_byte hfront]
        exact List.cons_ne_nil b rest.bytes
      exact ⟨by rw [hoffset], hoffset, hmore⟩
    · cases h

theorem isPastLimit_readBytes {n : Nat} {d d' : Decoder} {e : SourceError}
    (hf : ∀ m, .failure m ∉ d.feed) (hle : d.offset ≤ d.limit)
    (h : readBytes n d = (.error e, d')) : d'.IsPastLimit e := by
  induction n generalizing d with
  | zero => cases h
  | succ n ih =>
    have hcount := countsTo_readByte d
    simp only [readBytes] at h
    split at h
    · cases h
    · next hb =>
      cases h
      exact isPastLimit_readByte hf hle hb
    · next hb =>
      rw [hb] at hcount
      split at h
      · cases h
      · next hr =>
        cases h
        exact ih (fun m hm ↦ hf m (hcount.failure m hm)) (hcount.fits hle) hr

/-- Reading a character fails at the first byte of what encodes none, or else at the limit. -/
theorem fault_decodeOne {d d' : Decoder} {e : SourceError} (hf : ∀ m, .failure m ∉ d.feed)
    (hle : d.offset ≤ d.limit) (h : d.decodeOne = (.fault e, d')) :
    e = .invalidEncoding d.offset ∧ d.feed.bytes ≠ [] ∨ d'.IsPastLimit e := by
  have hcount := countsTo_readByte d
  simp only [decodeOne] at h
  split at h
  · cases h
  · next hb =>
    cases h
    exact .inr (isPastLimit_readByte hf hle hb)
  · next first d₁ hb =>
    rw [hb] at hcount
    have hbytes : d.feed.bytes ≠ [] := by
      rw [bytes_readByte hb]
      exact List.cons_ne_nil first d₁.feed.bytes
    split at h
    · cases h
      exact .inl ⟨rfl, hbytes⟩
    · split at h
      · next hr =>
        cases h
        exact .inr (isPastLimit_readBytes (fun m hm ↦ hf m (hcount.failure m hm))
          (hcount.fits hle) hr)
      · split at h
        · split at h
          · cases h
          · cases h
            exact .inl ⟨rfl, hbytes⟩
        · cases h
          exact .inl ⟨rfl, hbytes⟩

/-- A character whose encoded form comes next, within the limit, is the one that is read. -/
theorem char_of_encode_prefix {d : Decoder} {c : Char} {t : Text} (hf : ∀ m, .failure m ∉ d.feed)
    (h : Text.encode (c :: t) <+: d.feed.bytes.take (d.limit - d.offset)) :
    ∃ d', d.decodeOne = (.char c, d') ∧
      Text.encode t <+: d'.feed.bytes.take (d'.limit - d'.offset) := by
  obtain ⟨hfront, hlength⟩ := List.prefix_take_iff.1 h
  obtain ⟨after, hafter⟩ := hfront
  rw [Text.length_encode, Text.size_cons] at hlength
  have hc := c.utf8Size_pos
  rw [Text.encode_cons, List.append_assoc] at hafter
  obtain ⟨rest, hone, hrest, -⟩ := decodeOne_of_bytes_append hafter.symm hf (by omega)
  refine ⟨_, hone, List.prefix_take_iff.2 ⟨⟨after, hrest.symm⟩, ?_⟩⟩
  rw [Text.length_encode]
  show Text.size t ≤ d.limit - (d.offset + c.utf8Size)
  omega

/-- Bytes that start with no character within the limit have no longer front than the empty one. -/
theorem isLongestFront_nil {d : Decoder} (hf : ∀ m, .failure m ∉ d.feed)
    (h : ∀ c d', d.decodeOne ≠ (.char c, d')) :
    Text.IsLongestFront [] (d.feed.bytes.take (d.limit - d.offset)) := by
  refine ⟨List.nil_prefix, fun s hs ↦ ?_⟩
  cases s with
  | nil => exact Nat.le_refl _
  | cons c s =>
    obtain ⟨d', hone, -⟩ := char_of_encode_prefix hf hs
    exact absurd hone (h c d')

/-- A decoder that has not failed fails only where reading a character does. -/
theorem IsLevel.next_fault {d d' : Decoder} {e : SourceError} (hd : d.IsLevel)
    (h : d.next = (.fault e, d')) : ∃ d'', d.decodeOne = (.fault e, d'') := by
  rw [next_eq_decode hd.peeked, decode, if_neg (by simp [hd.failed])] at h
  split at h
  · next e' d'' hone =>
    cases h
    exact ⟨d'', hone⟩
  · exact ⟨d', h⟩

/-- What reading comes to: the longest text at the front of the bytes within the limit. There is no
failure if that is all bytes, and otherwise the failure is at the limit or where the text ends. -/
structure ReadsFront (d : Decoder) : Prop where
  longest : d.text.IsLongestFront (d.feed.bytes.take (d.limit - d.offset))
  ending_eq_none_iff : d.ending = none ↔ Text.encode d.text = d.feed.bytes
  ending_eq : ∀ e, d.ending = some e → e = .invalidEncoding (d.offset + Text.size d.text) ∨
    e = .unitTooLarge (d.limit + 1) d.limit ∧ d.limit - d.offset < d.feed.bytes.length

/-- **A decoder reads the longest UTF-8** at the front of its bytes, as far as the limit goes. -/
theorem read_spec {d : Decoder} (hd : d.IsLevel) (hf : ∀ m, .failure m ∉ d.feed)
    (hle : d.offset ≤ d.limit) : d.ReadsFront := by
  fun_induction read d with
  | case1 d c d' h text ending hr ih =>
    obtain ⟨hone, hd'⟩ := hd.next_char h
    have hbytes := bytes_decodeOne hone
    have hcount := countsTo_of_decodeOne hone
    have hoffset := offset_of_decodeOne hone
    have hfits := hcount.fits hle
    obtain ⟨hlongest, hnone, hsome⟩ := ih hd' (fun m hm ↦ hf m (hcount.failure m hm)) hfits
    have htext : d.text = c :: d'.text := by rw [Decoder.text, read_of_next_char h]
    have hending : d.ending = d'.ending := by rw [Decoder.ending, read_of_next_char h]
    refine ⟨⟨?_, fun s hs ↦ ?_⟩, ?_, fun e he ↦ ?_⟩
    · obtain ⟨⟨after, hafter⟩, hlength⟩ := List.prefix_take_iff.1 hlongest.encode_prefix
      rw [htext]
      refine List.prefix_take_iff.2 ⟨⟨after, by rw [hbytes, ← hafter]; simp⟩, ?_⟩
      rw [Text.length_encode] at hlength ⊢
      rw [Text.size_cons, hoffset, hcount.limit] at *
      omega
    · rw [htext]
      cases s with
      | nil => exact Nat.zero_le _
      | cons c' s =>
        obtain ⟨d'', hone', hs'⟩ := char_of_encode_prefix hf hs
        obtain ⟨hc, rfl⟩ := Prod.mk.inj (hone.symm.trans hone')
        cases hc
        exact Nat.add_le_add_left (hlongest.size_le s hs') c.utf8Size
    · rw [hending, hnone, htext, hbytes, Text.encode_cons, List.append_cancel_left_eq]
    · rw [htext, Text.size_cons, hbytes, List.length_append, String.length_utf8EncodeChar]
      rcases hsome e (hending ▸ he) with rfl | ⟨rfl, hmore⟩
      · exact .inl (by rw [hoffset, Nat.add_assoc])
      · exact .inr ⟨by rw [hcount.limit], by rw [hcount.limit] at hmore; omega⟩
  | case2 d d' h =>
    have hread := read_of_next_exhausted h
    have hbytes := hd.next_exhausted h
    have htext : d.text = [] := congrArg Prod.fst hread
    have hending : d.ending = none := congrArg Prod.snd hread
    refine ⟨?_, ⟨fun _ ↦ by rw [htext, hbytes]; rfl, fun _ ↦ hending⟩, fun e he ↦ ?_⟩
    · rw [htext]
      refine isLongestFront_nil hf fun c d'' hone ↦ ?_
      have hc := bytes_decodeOne hone
      rw [hbytes] at hc
      exact String.utf8EncodeChar_ne_nil (List.append_eq_nil_iff.1 hc.symm).1
    · rw [hending] at he
      cases he
  | case3 d e d' h =>
    have hread := read_of_next_fault h
    obtain ⟨d'', hone⟩ := hd.next_fault h
    have hcount := countsTo_of_decodeOne hone
    have htext : d.text = [] := congrArg Prod.fst hread
    have hending : d.ending = some e := congrArg Prod.snd hread
    have hfault := fault_decodeOne hf hle hone
    have hmore : d''.IsPastLimit e → d.limit - d.offset < d.feed.bytes.length := by
      rintro ⟨-, hoffset, hmore⟩
      have hpos := List.length_pos_iff.2 hmore
      have htotal := hcount.total
      have hlimit := hcount.limit
      omega
    refine ⟨?_, ?_, fun e' he ↦ ?_⟩
    · rw [htext]
      refine isLongestFront_nil hf fun c d₁ hchar ↦ ?_
      rw [hone] at hchar
      cases hchar
    · have hne : d.feed.bytes ≠ [] := by
        rcases hfault with ⟨-, hne⟩ | hpast
        · exact hne
        · have := hmore hpast
          exact List.ne_nil_of_length_pos (by omega)
      rw [hending, htext]
      exact ⟨fun hnone ↦ absurd hnone (Option.some_ne_none e), fun hnil ↦ absurd hnil.symm hne⟩
    · rw [hending] at he
      cases he
      rw [htext]
      rcases hfault with ⟨rfl, -⟩ | hpast
      · exact .inl rfl
      · exact .inr ⟨by rw [← hcount.limit]; exact hpast.eq, hmore hpast⟩

/-! ### Both together -/

theorem offset_decode {d : Decoder} (h : d.offset ≤ d.limit) :
    d.decode.2.limit = d.limit ∧ d.decode.2.offset ≤ d.limit := by
  have hcount := countsTo_decodeOne d
  have hone : d.decodeOne.2.limit = d.limit ∧ d.decodeOne.2.offset ≤ d.limit :=
    ⟨hcount.limit, hcount.limit ▸ hcount.fits h⟩
  simp only [decode]
  split
  · exact ⟨rfl, h⟩
  · split
    · next h' => rwa [h'] at hone
    · exact hone

theorem offset_call {d : Decoder} (h : d.offset ≤ d.limit) (c : Call) :
    (d.call c).2.limit = d.limit ∧ (d.call c).2.offset ≤ d.limit := by
  have hd := offset_decode h
  cases c with
  | next =>
    show d.next.2.limit = _ ∧ d.next.2.offset ≤ _
    simp only [next]
    split
    · exact ⟨rfl, h⟩
    · exact hd
  | peek =>
    show d.peek.2.limit = _ ∧ d.peek.2.offset ≤ _
    simp only [peek]
    split
    · exact ⟨rfl, h⟩
    · split
      · next h' => rwa [h'] at hd
      · exact hd

/-- No more bytes are taken than the limit allows. -/
theorem offset_calls {d : Decoder} (h : d.offset ≤ d.limit) (cs : List Call) :
    (d.calls cs).2.offset ≤ d.limit := by
  induction cs generalizing d with
  | nil => exact h
  | cons c cs ih =>
    obtain ⟨hlimit, hoffset⟩ := offset_call h c
    have hrest := ih (d := (d.call c).2) (hlimit ▸ hoffset)
    rwa [hlimit] at hrest

/-- A decoder with a text to hand out and a failure to tell of, whatever it is asked. -/
structure Serves (d : Decoder) (p : Text) (e : Option SourceError) : Prop where
  /-- `next` hands out the text in order, and the looks in between make no difference. -/
  handedOut_eq : ∀ cs, handedOut cs (d.calls cs).1 = p.take (cs.count .next)
  /-- The failure is told once, as soon as there is an answer that is no character. -/
  faults_eq : ∀ cs, (d.calls cs).1.filterMap Reading.fault? =
    if (d.calls cs).1.all (·.char?.isSome) then [] else e.toList
  /-- It is told to whoever asks for more than the text. -/
  faults_of_lt : ∀ cs, p.length < cs.count .next →
    (d.calls cs).1.filterMap Reading.fault? = e.toList
  eq_exhausted : ∀ cs front a back, (d.calls cs).1 = front ++ a :: back → a.char? = none →
    ∀ b ∈ back, b = .exhausted
  /-- A look may be left out without changing another answer, unless it is told of the failure. -/
  without_peek : ∀ before after front a back,
    (d.calls (before ++ .peek :: after)).1 = front ++ a :: back → front.length = before.length →
      a.fault? = none → (d.calls (before ++ after)).1 = front ++ back
  offset_le : ∀ cs, (d.calls cs).2.offset ≤ d.limit

theorem serves_read {d : Decoder} (h : d.offset ≤ d.limit) : d.Serves d.text d.ending where
  handedOut_eq cs := by
    rw [calls_eq_answers]
    exact handedOut_answers _ _ cs
  faults_eq cs := by
    rw [calls_eq_answers]
    exact faults_answers _ _ cs
  faults_of_lt cs hlt := by
    rw [calls_eq_answers]
    exact faults_answers_of_lt _ hlt
  eq_exhausted cs front a back hcs := by
    rw [calls_eq_answers] at hcs
    exact eq_exhausted_of_answers hcs
  without_peek before after front a back hcs := by
    rw [calls_eq_answers] at hcs
    rw [calls_eq_answers]
    exact answers_of_peek hcs
  offset_le := offset_calls h

/-- **A decoder is strict UTF-8**, for any bytes in any chunks, any limit and any order of calls:
it hands out the longest UTF-8 at the front of the bytes within the limit, and then tells once where
and why it stopped, unless those were all bytes. -/
theorem answers_of_feed {f : Feed} (hf : ∀ m, .failure m ∉ f) (limit : Nat) :
    ∃ (p : Text) (e : Option SourceError), p.IsLongestFront (f.bytes.take limit) ∧
      (f.bytes.length ≤ limit →
        e = if Text.encode p = f.bytes then none else some (.invalidEncoding (Text.size p))) ∧
      (limit < f.bytes.length →
        e = some (.unitTooLarge (limit + 1) limit) ∨ e = some (.invalidEncoding (Text.size p))) ∧
      ({ feed := f, limit := limit } : Decoder).Serves p e := by
  let d : Decoder := { feed := f, limit := limit }
  obtain ⟨hlongest, hnone, hsome⟩ :=
    read_spec (d := d) ⟨rfl, rfl⟩ hf (Nat.zero_le limit)
  have hzero : d.offset + Text.size d.text = Text.size d.text := Nat.zero_add _
  refine ⟨d.text, d.ending, hlongest, fun hle ↦ ?_, fun hlt ↦ ?_, serves_read (Nat.zero_le limit)⟩
  · by_cases hall : Text.encode d.text = f.bytes
    · rw [if_pos hall]
      exact hnone.2 hall
    · rw [if_neg hall]
      obtain ⟨e, he⟩ := Option.ne_none_iff_exists'.1 (mt hnone.1 hall)
      rcases hsome e he with rfl | ⟨-, hmore⟩
      · rw [he, hzero]
      · exact absurd hmore (Nat.not_lt.2 hle)
  · -- Within the limit there is only a part of the bytes, so that they cannot all have been read.
    have hall : Text.encode d.text ≠ f.bytes := by
      intro hall
      have hlength := (List.prefix_take_iff.1 hlongest.encode_prefix).2
      rw [hall] at hlength
      exact absurd hlt (Nat.not_lt.2 hlength)
    obtain ⟨e, he⟩ := Option.ne_none_iff_exists'.1 (mt hnone.1 hall)
    rcases hsome e he with rfl | ⟨rfl, -⟩
    · exact .inr (by rw [he, hzero])
    · exact .inl he

/-- A character that comes in two chunks, and a byte after it that starts no character. -/
def stray : Feed := [.bytes [0x61, 0xC3], .interrupted, .bytes [0xA9, 0xFF]]

theorem answers_of_feed_stray : (∀ m, .failure m ∉ stray) ∧
    ∃ (p : Text) (e : Option SourceError), p.IsLongestFront (stray.bytes.take 8) ∧
      (stray.bytes.length ≤ 8 →
        e = if Text.encode p = stray.bytes then none else some (.invalidEncoding (Text.size p))) ∧
      (8 < stray.bytes.length →
        e = some (.unitTooLarge 9 8) ∨ e = some (.invalidEncoding (Text.size p))) ∧
      ({ feed := stray, limit := 8 } : Decoder).Serves p e :=
  have hf : ∀ m, .failure m ∉ stray := by simp [stray]
  ⟨hf, answers_of_feed hf 8⟩

end Decoder

end LexFront
