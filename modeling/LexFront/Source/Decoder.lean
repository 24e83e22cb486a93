import LexFront.Limits
import LexFront.Source.Error
import LexFront.Source.Utf8

/-!
# From bytes to characters

Bytes arrive in chunks. Between chunks a read may be interrupted, which only means to try again, or
fail. A `Decoder` takes the bytes one by one and hands out characters with one character of
look-ahead. It stops for good at the first failure: a failed read, bytes that are no UTF-8, or a
byte past the size limit.

Key facts:

* `remaining_next_lt`: a character handed out uses up input, so whoever reads to the end gets there.
* `next_of_failed`: after a failure there is nothing more to read.
-/

set_option autoImplicit false

namespace LexFront

/-- One answer of a byte source. -/
inductive Chunk where
  | bytes (data : List UInt8)
  | interrupted
  | failure (message : String)
  deriving DecidableEq, Repr

/-- All answers of a byte source, in order; after the last one the input has ended. -/
abbrev Feed := List Chunk

namespace Feed

/-- The number of bytes of a feed. -/
def size : Feed → Nat
  | [] => 0
  | .bytes data :: rest => data.length + size rest
  | _ :: rest => size rest

/-- The feed that delivers some bytes at once. -/
def ofBytes (data : List UInt8) : Feed := [.bytes data]

/-- The feed that delivers the UTF-8 form of a text at once. -/
def ofString (s : String) : Feed := ofBytes s.toByteArray.toList

/-- What the next read of a feed finds. -/
inductive Front where
  | byte (b : UInt8) (rest : Feed)
  | failure (message : String) (rest : Feed)
  | exhausted

/-- Reads on past interruptions and empty chunks. -/
def front : Feed → Front
  | [] => .exhausted
  | .bytes (b :: data) :: rest => .byte b (.bytes data :: rest)
  | .bytes [] :: rest => front rest
  | .interrupted :: rest => front rest
  | .failure message :: rest => .failure message rest

theorem size_of_front_byte {f rest : Feed} {b : UInt8} (h : f.front = .byte b rest) :
    f.size = rest.size + 1 := by
  fun_induction front f with
  | case1 => cases h
  | case2 b' data r =>
    simp only [Front.byte.injEq] at h
    obtain ⟨-, rfl⟩ := h
    simp [size]
    omega
  | case3 r ih => simpa [size] using ih h
  | case4 r ih => simpa [size] using ih h
  | case5 => cases h

theorem size_of_front_failure {f rest : Feed} {m : String} (h : f.front = .failure m rest) :
    rest.size ≤ f.size := by
  fun_induction front f with
  | case1 => cases h
  | case2 => cases h
  | case3 r ih => simpa [size] using ih h
  | case4 r ih => simpa [size] using ih h
  | case5 m' r =>
    simp only [Front.failure.injEq] at h
    obtain ⟨-, rfl⟩ := h
    simp [size]

end Feed

/-- A decoder in the middle of its source. -/
structure Decoder where
  feed : Feed
  /-- The character that has been looked at but not handed out. -/
  peeked : Option Char := none
  /-- How many bytes have been taken. -/
  offset : Nat := 0
  limit : Nat := Limits.unitSize
  failed : Bool := false
  deriving DecidableEq, Repr

namespace Decoder

/-- What reading one character finds. -/
inductive Reading where
  | char (c : Char)
  | exhausted
  | fault (e : SourceError)
  deriving DecidableEq, Repr

/-- What reading one byte finds. -/
inductive ByteReading where
  | byte (b : UInt8)
  | exhausted
  | fault (e : SourceError)
  deriving DecidableEq, Repr

/-- An upper bound for the characters that are still to come. -/
def remaining (d : Decoder) : Nat := d.feed.size + if d.peeked.isSome then 1 else 0

/-- Takes one byte, unless that passes the limit. -/
def readByte (d : Decoder) : ByteReading × Decoder :=
  match d.feed.front with
  | .exhausted => (.exhausted, d)
  | .failure message rest => (.fault (.io message), { d with feed := rest })
  | .byte b rest =>
    if d.limit ≤ d.offset then (.fault (.unitTooLarge (d.offset + 1) d.limit), d)
    else (.byte b, { d with feed := rest, offset := d.offset + 1 })

/-- Takes up to `n` bytes, fewer if the input ends before that. -/
def readBytes : Nat → Decoder → Except SourceError (List UInt8) × Decoder
  | 0, d => (.ok [], d)
  | n + 1, d =>
    match d.readByte with
    | (.exhausted, d) => (.ok [], d)
    | (.fault e, d) => (.error e, d)
    | (.byte b, d) =>
      match readBytes n d with
      | (.ok bs, d) => (.ok (b :: bs), d)
      | (.error e, d) => (.error e, d)

/-- Takes the bytes of one character. A sequence that encodes none is reported at the offset of its
first byte. -/
def decodeOne (d : Decoder) : Reading × Decoder :=
  match d.readByte with
  | (.exhausted, d') => (.exhausted, d')
  | (.fault e, d') => (.fault e, d')
  | (.byte first, d') =>
    match Utf8.width first with
    | 0 => (.fault (.invalidEncoding d.offset), d')
    | n + 1 =>
      match d'.readBytes n with
      | (.error e, d'') => (.fault e, d'')
      | (.ok tail, d'') =>
        -- The announced bytes are taken in any case, also if the first of them is already wrong.
        if tail.length = n then
          match Utf8.decode? (first :: tail) with
          | some c => (.char c, d'')
          | none => (.fault (.invalidEncoding d.offset), d'')
        else (.fault (.invalidEncoding d.offset), d'')

/-- Reads past the look-ahead, and not at all after a failure. -/
def decode (d : Decoder) : Reading × Decoder :=
  if d.failed then (.exhausted, d)
  else
    match d.decodeOne with
    | (.fault e, d') => (.fault e, { d' with failed := true })
    | r => r

/-- Hands out the next character. -/
def next (d : Decoder) : Reading × Decoder :=
  match d.peeked with
  | some c => (.char c, { d with peeked := none })
  | none => d.decode

/-- Looks at the next character. -/
def peek (d : Decoder) : Reading × Decoder :=
  match d.peeked with
  | some c => (.char c, d)
  | none =>
    match d.decode with
    | (.char c, d') => (.char c, { d' with peeked := some c })
    | r => r

/-! ### Reading uses up input -/

theorem size_readByte (d : Decoder) : d.readByte.2.feed.size ≤ d.feed.size := by
  simp only [readByte]
  split
  · exact Nat.le_refl _
  · next h => exact Feed.size_of_front_failure h
  · next h =>
    split
    · exact Nat.le_refl _
    · have := Feed.size_of_front_byte h
      simp only
      omega

theorem size_readByte_byte {d d' : Decoder} {b : UInt8} (h : d.readByte = (.byte b, d')) :
    d'.feed.size < d.feed.size := by
  simp only [readByte] at h
  split at h
  · simp at h
  · simp at h
  · next hf =>
    split at h
    · simp at h
    · have := Feed.size_of_front_byte hf
      simp only [Prod.mk.injEq] at h
      rw [← h.2]
      simp only
      omega

theorem size_readBytes (n : Nat) (d : Decoder) : (readBytes n d).2.feed.size ≤ d.feed.size := by
  induction n generalizing d with
  | zero => exact Nat.le_refl _
  | succ n ih =>
    have hb := size_readByte d
    simp only [readBytes]
    split
    · next h => simpa [h] using hb
    · next h => simpa [h] using hb
    · next d' h =>
      rw [h] at hb
      have := ih d'
      split <;> rename_i hr <;> rw [hr] at this <;> exact Nat.le_trans this hb

theorem peeked_readByte (d : Decoder) : d.readByte.2.peeked = d.peeked := by
  simp only [readByte]
  split
  · rfl
  · rfl
  · split <;> rfl

theorem peeked_readBytes (n : Nat) (d : Decoder) : (readBytes n d).2.peeked = d.peeked := by
  induction n generalizing d with
  | zero => rfl
  | succ n ih =>
    have hb := peeked_readByte d
    simp only [readBytes]
    split
    · next h => simpa [h] using hb
    · next h => simpa [h] using hb
    · next d' h =>
      rw [h] at hb
      have := ih d'
      split <;> rename_i hr <;> rw [hr] at this <;> exact this.trans hb

theorem size_decodeOne (d : Decoder) : d.decodeOne.2.feed.size ≤ d.feed.size := by
  have hb := size_readByte d
  simp only [decodeOne]
  split
  · next h => simpa [h] using hb
  · next h => simpa [h] using hb
  · next d' h =>
    rw [h] at hb
    split
    · exact hb
    · next n _ =>
      have hr := size_readBytes n d'
      split
      · next h' => rw [h'] at hr; exact Nat.le_trans hr hb
      · next h' =>
        rw [h'] at hr
        split
        · split <;> exact Nat.le_trans hr hb
        · exact Nat.le_trans hr hb

theorem size_decodeOne_char {d d' : Decoder} {c : Char} (h : d.decodeOne = (.char c, d')) :
    d'.feed.size < d.feed.size := by
  simp only [decodeOne] at h
  split at h
  · simp at h
  · simp at h
  · next d₁ h₁ =>
    have hlt := size_readByte_byte h₁
    split at h
    · simp at h
    · next n _ =>
      have hr := size_readBytes n d₁
      split at h
      · simp at h
      · next h₂ =>
        rw [h₂] at hr
        split at h
        · split at h
          · simp only [Prod.mk.injEq] at h
            rw [← h.2]
            exact Nat.lt_of_le_of_lt hr hlt
          · simp at h
        · simp at h

theorem peeked_decodeOne (d : Decoder) : d.decodeOne.2.peeked = d.peeked := by
  have hb := peeked_readByte d
  simp only [decodeOne]
  split
  · next h => simpa [h] using hb
  · next h => simpa [h] using hb
  · next d' h =>
    rw [h] at hb
    split
    · exact hb
    · next n _ =>
      have hr := peeked_readBytes n d'
      split
      · next h' => rw [h'] at hr; exact hr.trans hb
      · next h' =>
        rw [h'] at hr
        split
        · split <;> exact hr.trans hb
        · exact hr.trans hb

theorem size_decode (d : Decoder) : d.decode.2.feed.size ≤ d.feed.size := by
  have h := size_decodeOne d
  simp only [decode]
  split
  · exact Nat.le_refl _
  · split
    · next h' => simpa [h'] using h
    · exact h

theorem peeked_decode (d : Decoder) : d.decode.2.peeked = d.peeked := by
  have h := peeked_decodeOne d
  simp only [decode]
  split
  · rfl
  · split
    · next h' => simpa [h'] using h
    · exact h

theorem size_decode_char {d d' : Decoder} {c : Char} (h : d.decode = (.char c, d')) :
    d'.feed.size < d.feed.size := by
  simp only [decode] at h
  split at h
  · simp at h
  · split at h
    · simp at h
    · exact size_decodeOne_char h

theorem remaining_next_le (d : Decoder) : d.next.2.remaining ≤ d.remaining := by
  cases hp : d.peeked with
  | some c => simp [next, remaining, hp]
  | none =>
    have h₁ := size_decode d
    have h₂ := peeked_decode d
    simp only [next, hp, remaining, h₂]
    omega

theorem remaining_next_lt {d d' : Decoder} {c : Char} (h : d.next = (.char c, d')) :
    d'.remaining < d.remaining := by
  cases hp : d.peeked with
  | some c' =>
    simp only [next, hp, Prod.mk.injEq] at h
    simp [← h.2, remaining, hp]
  | none =>
    simp only [next, hp] at h
    have h₁ := size_decode_char h
    have h₂ : d'.peeked = none := by simpa [h, hp] using peeked_decode d
    simp only [remaining, h₂, hp]
    omega

theorem remaining_peek_le (d : Decoder) : d.peek.2.remaining ≤ d.remaining := by
  cases hp : d.peeked with
  | some c => simp [peek, hp]
  | none =>
    have h₁ := size_decode d
    have h₂ := peeked_decode d
    simp only [peek, hp]
    split
    · next h =>
      have := size_decode_char h
      simp only [remaining, hp]
      simp
      omega
    · next hr =>
      simp only [remaining, h₂, hp]
      omega

theorem peeked_of_peek_char {d d' : Decoder} {c : Char} (h : d.peek = (.char c, d')) :
    d'.peeked = some c := by
  simp only [peek] at h
  split at h
  · next hp =>
    simp only [Prod.mk.injEq, Reading.char.injEq] at h
    obtain ⟨rfl, rfl⟩ := h
    exact hp
  · split at h
    · simp only [Prod.mk.injEq, Reading.char.injEq] at h
      obtain ⟨rfl, rfl⟩ := h
      rfl
    · next hr => exact absurd h (hr c d')

theorem next_of_failed {d : Decoder} (hf : d.failed = true) (hp : d.peeked = none) :
    d.next = (.exhausted, d) := by
  simp [next, decode, hf, hp]

end Decoder

end LexFront
