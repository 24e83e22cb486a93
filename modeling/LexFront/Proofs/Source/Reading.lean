import LexFront.Proofs.Source.Encoding

/-!
# What a decoder reads

A decoder hands out characters until its source ends or fails. `read` is all of that at once: the
characters, and the failure if there was one. Whoever takes characters off a decoder takes them off
the front of its `text`, and looking ahead changes nothing.

The characters are tied to the bytes of the feed in both directions, so that "the input" may be
said of the bytes: what is read is a prefix of them, all of them if nothing failed, and a feed that
delivers the encoded form of a text within the limit is read as that text.

Key facts:

* `read_peek`: looking at the next character leaves what is read as it is.
* `bytes_eq_encode_text`: the characters read are the bytes delivered.
* `read_eq_of_delivers`: encoded text is read back, however it is cut into chunks.
-/

set_option autoImplicit false

namespace LexFront

namespace Feed

/-- All bytes of a feed. -/
def bytes : Feed → List UInt8
  | [] => []
  | .bytes data :: rest => data ++ bytes rest
  | _ :: rest => bytes rest

/-- The feed delivers the encoded form of a text, in any chunks and with any interruptions, and no
read of it fails. -/
def Delivers (f : Feed) (t : Text) : Prop := f.bytes = Text.encode t ∧ ∀ m, .failure m ∉ f

theorem delivers_ofBytes (t : Text) : (ofBytes (Text.encode t)).Delivers t :=
  ⟨by simp [ofBytes, bytes], by simp [ofBytes]⟩

theorem bytes_of_front_byte {f rest : Feed} {b : UInt8} (h : f.front = .byte b rest) :
    f.bytes = b :: rest.bytes := by
  fun_induction front f with
  | case1 => cases h
  | case2 b' data r =>
    simp only [Front.byte.injEq] at h
    obtain ⟨rfl, rfl⟩ := h
    rfl
  | case3 r ih => exact ih h
  | case4 r ih => exact ih h
  | case5 => cases h

theorem bytes_of_front_exhausted {f : Feed} (h : f.front = .exhausted) : f.bytes = [] := by
  fun_induction front f with
  | case1 => rfl
  | case2 => cases h
  | case3 r ih => exact ih h
  | case4 r ih => exact ih h
  | case5 => cases h

theorem bytes_of_front_failure {f rest : Feed} {m : String} (h : f.front = .failure m rest) :
    .failure m ∈ f := by
  fun_induction front f with
  | case1 => cases h
  | case2 => cases h
  | case3 r ih => exact List.mem_cons_of_mem _ (ih h)
  | case4 r ih => exact List.mem_cons_of_mem _ (ih h)
  | case5 m' r =>
    simp only [Front.failure.injEq] at h
    exact h.1 ▸ List.mem_cons_self

theorem failure_mem_of_front_byte {f rest : Feed} {b : UInt8} {m : String}
    (h : f.front = .byte b rest) (hm : .failure m ∈ rest) : .failure m ∈ f := by
  fun_induction front f with
  | case1 => cases h
  | case2 b' data r =>
    simp only [Front.byte.injEq] at h
    obtain ⟨-, rfl⟩ := h
    simpa using hm
  | case3 r ih => exact List.mem_cons_of_mem _ (ih h)
  | case4 r ih => exact List.mem_cons_of_mem _ (ih h)
  | case5 => cases h

end Feed

namespace Decoder

/-- All characters that are still to come, and the failure after them, if there is one. -/
def read (d : Decoder) : Text × Option SourceError :=
  match _h : d.next with
  | (.char c, d') =>
    let (text, ending) := read d'
    (c :: text, ending)
  | (.exhausted, _) => ([], none)
  | (.fault e, _) => ([], some e)
termination_by d.remaining
decreasing_by exact remaining_next_lt ‹_›

/-- All characters that are still to come. -/
def text (d : Decoder) : Text := d.read.1

/-- The failure that ends the reading, if there is one. -/
def ending (d : Decoder) : Option SourceError := d.read.2

theorem read_of_next_char {d d' : Decoder} {c : Char} (h : d.next = (.char c, d')) :
    d.read = (c :: d'.text, d'.ending) := by
  rw [read]
  split <;> simp_all [text, ending]

theorem read_of_next_exhausted {d d' : Decoder} (h : d.next = (.exhausted, d')) :
    d.read = ([], none) := by
  rw [read]
  split <;> simp_all

theorem read_of_next_fault {d d' : Decoder} {e : SourceError} (h : d.next = (.fault e, d')) :
    d.read = ([], some e) := by
  rw [read]
  split <;> simp_all

/-! ### A decoder that stopped stays stopped -/

theorem readByte_of_exhausted {d d' : Decoder} (h : d.readByte = (.exhausted, d')) :
    d' = d ∧ d.feed.front = .exhausted := by
  simp only [readByte] at h
  split at h
  · next hf => exact ⟨(Prod.mk.inj h).2.symm, hf⟩
  · cases h
  · split at h <;> cases h

theorem decodeOne_of_exhausted {d d' : Decoder} (h : d.decodeOne = (.exhausted, d')) :
    d' = d ∧ d.feed.front = .exhausted := by
  simp only [decodeOne] at h
  split at h
  · next d₁ hb => exact (Prod.mk.inj h).2 ▸ readByte_of_exhausted hb
  · cases h
  · split at h
    · cases h
    · split at h
      · cases h
      · split at h
        · split at h <;> cases h
        · cases h

/-- The end of the input is found again and again, and the decoder does not move. -/
theorem eq_of_decode_exhausted {d d' : Decoder} (h : d.decode = (.exhausted, d')) : d' = d := by
  simp only [decode] at h
  split at h
  · exact (Prod.mk.inj h).2.symm
  · split at h
    · cases h
    · exact (decodeOne_of_exhausted h).1

/-- A failure is reported once; there is nothing to read after it. -/
theorem failed_of_decode_fault {d d' : Decoder} {e : SourceError} (h : d.decode = (.fault e, d')) :
    d'.failed = true := by
  simp only [decode] at h
  split at h
  · cases h
  · split at h
    · exact (Prod.mk.inj h).2 ▸ rfl
    · next hne => exact absurd h (hne e d')

theorem next_eq_decode {d : Decoder} (h : d.peeked = none) : d.next = d.decode := by
  simp [next, h]

theorem peeked_of_decode {d d' : Decoder} {r : Reading} (h : d.decode = (r, d')) :
    d'.peeked = d.peeked := by
  simpa [h] using peeked_decode d

/-- After a failure nothing is read. -/
theorem read_of_decode_fault {d d' : Decoder} {e : SourceError} (h : d.decode = (.fault e, d'))
    (hp : d.peeked = none) : d'.read = ([], none) :=
  read_of_next_exhausted (next_of_failed (failed_of_decode_fault h) (peeked_of_decode h ▸ hp))

theorem read_of_next_fault_snd {d d' : Decoder} {e : SourceError} (h : d.next = (.fault e, d')) :
    d'.read = ([], none) := by
  cases hp : d.peeked with
  | some c => simp [next, hp] at h
  | none => exact read_of_decode_fault (next_eq_decode hp ▸ h) hp

theorem read_of_next_exhausted_snd {d d' : Decoder} (h : d.next = (.exhausted, d')) :
    d'.read = ([], none) := by
  cases hp : d.peeked with
  | some c => simp [next, hp] at h
  | none =>
    have hd : d' = d := eq_of_decode_exhausted (next_eq_decode hp ▸ h)
    rw [hd]
    exact read_of_next_exhausted h

/-- **Looking ahead changes nothing**: the character that is seen is the next one to be read. -/
theorem read_peek {d d' : Decoder} {c : Char} (h : d.peek = (.char c, d')) :
    d'.read = d.read ∧ d.text.head? = some c := by
  cases hp : d.peeked with
  | some c' =>
    simp only [peek, hp, Prod.mk.injEq, Reading.char.injEq] at h
    obtain ⟨rfl, rfl⟩ := h
    have hn : d.next = (.char c', { d with peeked := none }) := by simp [next, hp]
    simp [text, read_of_next_char hn]
  | none =>
    simp only [peek, hp] at h
    split at h
    · next c' d₁ hd =>
      simp only [Prod.mk.injEq, Reading.char.injEq] at h
      obtain ⟨rfl, rfl⟩ := h
      have hp₁ : d₁.peeked = none := peeked_of_decode hd ▸ hp
      have hn : ({ d₁ with peeked := some c' } : Decoder).next = (.char c', d₁) := by
        simp [next, ← hp₁]
      have hr := read_of_next_char ((next_eq_decode hp).trans hd)
      exact ⟨(read_of_next_char hn).trans hr.symm, by rw [text, hr]; rfl⟩
    · next hne => exact absurd h (hne c d')

theorem read_peek_exhausted {d d' : Decoder} (h : d.peek = (.exhausted, d')) :
    d'.read = ([], none) ∧ d.read = ([], none) := by
  cases hp : d.peeked with
  | some c' => simp [peek, hp] at h
  | none =>
    simp only [peek, hp] at h
    split at h
    · cases h
    · have hd : d' = d := eq_of_decode_exhausted h
      have hr := read_of_next_exhausted ((next_eq_decode hp).trans h)
      exact ⟨hd ▸ hr, hr⟩

theorem read_peek_fault {d d' : Decoder} {e : SourceError} (h : d.peek = (.fault e, d')) :
    d'.read = ([], none) ∧ d.read = ([], some e) := by
  cases hp : d.peeked with
  | some c' => simp [peek, hp] at h
  | none =>
    simp only [peek, hp] at h
    split at h
    · cases h
    · exact ⟨read_of_decode_fault h hp, read_of_next_fault ((next_eq_decode hp).trans h)⟩

/-! ### Characters and bytes -/

/-- The second decoder is the first one further on in its feed. -/
structure MovesTo (d d' : Decoder) : Prop where
  peeked : d'.peeked = d.peeked
  limit : d'.limit = d.limit
  failed : d'.failed = d.failed

theorem MovesTo.refl (d : Decoder) : d.MovesTo d := ⟨rfl, rfl, rfl⟩

theorem MovesTo.trans {d d' d'' : Decoder} (h : d.MovesTo d') (h' : d'.MovesTo d'') :
    d.MovesTo d'' :=
  ⟨h'.peeked.trans h.peeked, h'.limit.trans h.limit, h'.failed.trans h.failed⟩

theorem movesTo_readByte (d : Decoder) : d.MovesTo d.readByte.2 := by
  simp only [readByte]
  split
  · exact .refl d
  · exact ⟨rfl, rfl, rfl⟩
  · split <;> exact ⟨rfl, rfl, rfl⟩

theorem movesTo_readBytes (n : Nat) (d : Decoder) : d.MovesTo (readBytes n d).2 := by
  induction n generalizing d with
  | zero => exact .refl d
  | succ n ih =>
    have hb := movesTo_readByte d
    simp only [readBytes]
    split
    · next h => rwa [h] at hb
    · next h => rwa [h] at hb
    · next d' h =>
      rw [h] at hb
      have hr := hb.trans (ih d')
      split <;> next h' => rwa [h'] at hr

theorem movesTo_decodeOne (d : Decoder) : d.MovesTo d.decodeOne.2 := by
  have hb := movesTo_readByte d
  simp only [decodeOne]
  split
  · next h => rwa [h] at hb
  · next h => rwa [h] at hb
  · next d' h =>
    rw [h] at hb
    split
    · exact hb
    · next n _ =>
      have hr := hb.trans (movesTo_readBytes n d')
      split
      · next h' => rwa [h'] at hr
      · next h' =>
        rw [h'] at hr
        split
        · split <;> exact hr
        · exact hr

theorem bytes_readByte {d d' : Decoder} {b : UInt8} (h : d.readByte = (.byte b, d')) :
    d.feed.bytes = b :: d'.feed.bytes := by
  simp only [readByte] at h
  split at h
  · cases h
  · cases h
  · next hf =>
    split at h
    · cases h
    · simp only [Prod.mk.injEq, ByteReading.byte.injEq] at h
      obtain ⟨rfl, rfl⟩ := h
      exact Feed.bytes_of_front_byte hf

theorem bytes_readBytes {n : Nat} {d d' : Decoder} {bs : List UInt8}
    (h : readBytes n d = (.ok bs, d')) : d.feed.bytes = bs ++ d'.feed.bytes := by
  induction n generalizing d bs with
  | zero =>
    simp only [readBytes, Prod.mk.injEq, Except.ok.injEq] at h
    obtain ⟨rfl, rfl⟩ := h
    rfl
  | succ n ih =>
    simp only [readBytes] at h
    split at h
    · next hb =>
      simp only [Prod.mk.injEq, Except.ok.injEq] at h
      obtain ⟨rfl, rfl⟩ := h
      rw [(readByte_of_exhausted hb).1, List.nil_append]
    · cases h
    · next hb =>
      split at h
      · next hr =>
        simp only [Prod.mk.injEq, Except.ok.injEq] at h
        obtain ⟨rfl, rfl⟩ := h
        rw [bytes_readByte hb, ih hr]
        rfl
      · cases h

/-- A character that is read is taken off the bytes of the feed in its encoded form. -/
theorem bytes_decodeOne {d d' : Decoder} {c : Char} (h : d.decodeOne = (.char c, d')) :
    d.feed.bytes = String.utf8EncodeChar c ++ d'.feed.bytes := by
  simp only [decodeOne] at h
  split at h
  · cases h
  · cases h
  · next first d₁ hb =>
    split at h
    · cases h
    · next n hw =>
      split at h
      · cases h
      · next tail d₂ hr =>
        split at h
        · next hl =>
          split at h
          · next hc =>
            simp only [Prod.mk.injEq, Reading.char.injEq] at h
            obtain ⟨rfl, rfl⟩ := h
            rw [bytes_readByte hb, bytes_readBytes hr, Utf8.encode_of_decode? (hl ▸ hw) hc]
            rfl
          · cases h
        · cases h

/-- A decoder that has neither failed nor looked ahead: its feed holds all that is to come. -/
structure IsLevel (d : Decoder) : Prop where
  failed : d.failed = false
  peeked : d.peeked = none

theorem IsLevel.next_char {d d' : Decoder} {c : Char} (hd : d.IsLevel)
    (h : d.next = (.char c, d')) : d.decodeOne = (.char c, d') ∧ d'.IsLevel := by
  rw [next_eq_decode hd.peeked, decode, if_neg (by simp [hd.failed])] at h
  have hone : d.decodeOne = (.char c, d') := by
    split at h
    · cases h
    · exact h
  have hmove := movesTo_decodeOne d
  rw [hone] at hmove
  exact ⟨hone, ⟨hmove.failed.trans hd.failed, hmove.peeked.trans hd.peeked⟩⟩

theorem IsLevel.next_exhausted {d d' : Decoder} (hd : d.IsLevel)
    (h : d.next = (.exhausted, d')) : d.feed.bytes = [] := by
  rw [next_eq_decode hd.peeked, decode, if_neg (by simp [hd.failed])] at h
  split at h
  · cases h
  · exact Feed.bytes_of_front_exhausted (decodeOne_of_exhausted h).2

/-- **What is read is what was delivered**, up to the failure if there is one. -/
theorem bytes_eq_encode_text {d : Decoder} (hd : d.IsLevel) :
    ∃ unread, d.feed.bytes = Text.encode d.text ++ unread ∧ (d.ending = none → unread = []) := by
  fun_induction read d with
  | case1 d c d' h text ending hr ih =>
    obtain ⟨hone, hd'⟩ := hd.next_char h
    obtain ⟨unread, hbytes, hending⟩ := ih hd'
    rw [Decoder.text, Decoder.ending, read_of_next_char h]
    exact ⟨unread, by rw [bytes_decodeOne hone, hbytes]; simp, hending⟩
  | case2 d d' h =>
    rw [Decoder.text, Decoder.ending, read_of_next_exhausted h]
    exact ⟨[], by simp [hd.next_exhausted h], fun _ ↦ rfl⟩
  | case3 d e d' h =>
    rw [Decoder.text, Decoder.ending, read_of_next_fault h]
    exact ⟨d.feed.bytes, by simp, by simp⟩

/-! ### Encoded text is read back -/

theorem front_of_bytes_cons {f : Feed} {b : UInt8} {bs : List UInt8} (hb : f.bytes = b :: bs)
    (hf : ∀ m, .failure m ∉ f) : ∃ rest, f.front = .byte b rest ∧ rest.bytes = bs := by
  cases hfront : f.front with
  | exhausted => simp [Feed.bytes_of_front_exhausted hfront] at hb
  | failure m rest => exact absurd (Feed.bytes_of_front_failure hfront) (hf m)
  | byte b' rest =>
    rw [Feed.bytes_of_front_byte hfront, List.cons.injEq] at hb
    exact ⟨rest, by rw [hb.1], hb.2⟩

theorem readByte_of_bytes_cons {d : Decoder} {b : UInt8} {bs : List UInt8}
    (hb : d.feed.bytes = b :: bs) (hf : ∀ m, .failure m ∉ d.feed) (hl : d.offset < d.limit) :
    ∃ rest, d.readByte = (.byte b, { d with feed := rest, offset := d.offset + 1 }) ∧
      rest.bytes = bs ∧ ∀ m, .failure m ∉ rest := by
  obtain ⟨rest, hfront, hrest⟩ := front_of_bytes_cons hb hf
  refine ⟨rest, ?_, hrest, fun m hm ↦ hf m (Feed.failure_mem_of_front_byte hfront hm)⟩
  simp [readByte, hfront, Nat.not_le.2 hl]

theorem readBytes_of_bytes_append {d : Decoder} {bs after : List UInt8}
    (hb : d.feed.bytes = bs ++ after) (hf : ∀ m, .failure m ∉ d.feed)
    (hl : d.offset + bs.length ≤ d.limit) :
    ∃ rest, readBytes bs.length d =
        (.ok bs, { d with feed := rest, offset := d.offset + bs.length }) ∧
      rest.bytes = after ∧ ∀ m, .failure m ∉ rest := by
  induction bs generalizing d with
  | nil => exact ⟨d.feed, rfl, hb, hf⟩
  | cons b bs ih =>
    simp only [List.length_cons] at hl
    obtain ⟨rest, hread, hrest, hrestf⟩ := readByte_of_bytes_cons hb hf (by omega)
    obtain ⟨rest', hread', hrest', hrestf'⟩ :=
      ih (d := { d with feed := rest, offset := d.offset + 1 }) hrest hrestf
        (by simp only; omega)
    refine ⟨rest', ?_, hrest', hrestf'⟩
    simp only [List.length_cons, readBytes, hread, hread', Prod.mk.injEq, Decoder.mk.injEq,
      true_and, and_true]
    omega

theorem decodeOne_of_bytes_append {d : Decoder} {c : Char} {after : List UInt8}
    (hb : d.feed.bytes = String.utf8EncodeChar c ++ after) (hf : ∀ m, .failure m ∉ d.feed)
    (hl : d.offset + c.utf8Size ≤ d.limit) :
    ∃ rest, d.decodeOne = (.char c, { d with feed := rest, offset := d.offset + c.utf8Size }) ∧
      rest.bytes = after ∧ ∀ m, .failure m ∉ rest := by
  obtain ⟨first, tail, hc, hw, hdecode⟩ := Utf8.decode?_encode c
  have hsize : c.utf8Size = tail.length + 1 := by
    rw [← String.length_utf8EncodeChar, hc, List.length_cons]
  rw [hc] at hb
  obtain ⟨rest, hread, hrest, hrestf⟩ := readByte_of_bytes_cons hb hf (by omega)
  obtain ⟨rest', hread', hrest', hrestf'⟩ :=
    readBytes_of_bytes_append (d := { d with feed := rest, offset := d.offset + 1 }) hrest hrestf
      (by simp only; omega)
  refine ⟨rest', ?_, hrest', hrestf'⟩
  simp only [decodeOne, hread, hw, hread', hdecode, if_true, Prod.mk.injEq, Decoder.mk.injEq,
    true_and, and_true]
  omega

/-- **Encoded text is read back**, whatever the chunks, as long as it fits the limit. -/
theorem read_eq_of_delivers {d : Decoder} {t : Text} (hd : d.IsLevel) (ht : d.feed.Delivers t)
    (hl : d.offset + Text.size t ≤ d.limit) : d.read = (t, none) := by
  induction t generalizing d with
  | nil =>
    have hfront : d.feed.front = .exhausted := by
      cases hfront : d.feed.front with
      | exhausted => rfl
      | failure m rest => exact absurd (Feed.bytes_of_front_failure hfront) (ht.2 m)
      | byte b rest =>
        have hb := Feed.bytes_of_front_byte hfront
        rw [ht.1] at hb
        cases hb
    have hnext : d.next = (.exhausted, d) := by
      simp [next, hd.peeked, decode, hd.failed, decodeOne, readByte, hfront]
    exact read_of_next_exhausted hnext
  | cons c t ih =>
    rw [Text.size_cons] at hl
    obtain ⟨rest, hone, hrest, hrestf⟩ := decodeOne_of_bytes_append ht.1 ht.2 (by omega)
    have hnext : d.next = (.char c, { d with feed := rest, offset := d.offset + c.utf8Size }) := by
      simp [next, hd.peeked, decode, hd.failed, hone]
    have hrec := ih (d := { d with feed := rest, offset := d.offset + c.utf8Size })
      ⟨hd.failed, hd.peeked⟩ ⟨hrest, hrestf⟩ (by simp only; omega)
    rw [read_of_next_char hnext, text, ending, hrec]

end Decoder

/-- Different texts have different encoded forms, for both would be read back. -/
theorem Text.encode_injective {s t : Text} (h : Text.encode s = Text.encode t) : s = t := by
  have hsize : Text.size t = Text.size s := by
    rw [← Text.length_encode, ← h, Text.length_encode]
  have hread : ∀ r, Text.encode r = Text.encode s → Text.size r = Text.size s →
      ({ feed := .ofBytes (Text.encode s), limit := Text.size s } : Decoder).read = (r, none) := by
    intro r hr hsize
    refine Decoder.read_eq_of_delivers ⟨rfl, rfl⟩ (hr ▸ Feed.delivers_ofBytes r) ?_
    exact Nat.le_of_eq ((Nat.zero_add _).trans hsize)
  have hs := hread s rfl rfl
  rw [hread t h.symm hsize] at hs
  exact (congrArg Prod.fst hs).symm

end LexFront
