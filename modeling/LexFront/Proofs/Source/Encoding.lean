import LexFront.Source.Decoder
import LexFront.Text.Basic

/-!
# Strict UTF-8 is the inverse of the encoding

The decoder reads a character off the bytes that its first byte announces. Those bytes are exactly
the encoded form of the character, and the encoded form of every character is read back. Both
directions are stated of one character here; whoever reads a whole feed puts them together.

Key facts:

* `Utf8.encode_of_decode?`: only the encoded form of a character is read as that character.
* `Utf8.decode?_encode`: the encoded form of a character is read as that character.
-/

set_option autoImplicit false

namespace LexFront

namespace Text

/-- The UTF-8 form of a text. -/
def encode (t : Text) : List UInt8 := t.flatMap String.utf8EncodeChar

@[simp] theorem encode_nil : encode [] = [] := rfl

@[simp] theorem encode_cons (c : Char) (t : Text) :
    encode (c :: t) = String.utf8EncodeChar c ++ encode t := rfl

@[simp] theorem encode_append (s t : Text) : encode (s ++ t) = encode s ++ encode t :=
  List.flatMap_append

theorem length_encode (t : Text) : (encode t).length = size t := by
  induction t with
  | nil => rfl
  | cons c t ih => simp [ih]

end Text

namespace Utf8

theorem continuation?_eq_some_iff {b : UInt8} {n : Nat} :
    continuation? b = some n ↔ 0x80 ≤ b.toNat ∧ b.toNat ≤ 0xBF ∧ n = b.toNat - 0x80 := by
  simp only [continuation?]
  split
  · next h => simp [h, eq_comm]
  · next h => simp only [reduceCtorEq, false_iff]; omega

/-- A scalar value stands for the one character that has it. -/
theorem scalar?_eq_some_iff {least n : Nat} {c : Char} :
    scalar? least n = some c ↔ least ≤ n ∧ c.toNat = n := by
  have hvalid := c.valid
  simp only [UInt32.isValidChar, Nat.isValidChar] at hvalid
  have hval : c.val.toNat = c.toNat := rfl
  simp only [scalar?]
  constructor
  · intro h
    split at h
    · next hn =>
      have hn' : n.isValidChar := by simpa only [Nat.isValidChar] using hn.2
      obtain rfl := Option.some.inj h
      refine ⟨hn.1, ?_⟩
      rw [Char.ofNat, dif_pos hn']
      rfl
    · cases h
  · rintro ⟨hle, rfl⟩
    rw [if_pos ⟨hle, by omega⟩, Char.ofNat_toNat]

/-- The encoded form of a character by the size of its scalar value. -/
theorem utf8EncodeChar_eq (c : Char) :
    String.utf8EncodeChar c =
      if c.toNat ≤ 0x7F then [.ofNat c.toNat]
      else if c.toNat ≤ 0x7FF then
        [.ofNat (c.toNat / 64 % 32 + 0xC0), .ofNat (c.toNat % 64 + 0x80)]
      else if c.toNat ≤ 0xFFFF then
        [.ofNat (c.toNat / 4096 % 16 + 0xE0), .ofNat (c.toNat / 64 % 64 + 0x80),
          .ofNat (c.toNat % 64 + 0x80)]
      else
        [.ofNat (c.toNat / 262144 % 8 + 0xF0), .ofNat (c.toNat / 4096 % 64 + 0x80),
          .ofNat (c.toNat / 64 % 64 + 0x80), .ofNat (c.toNat % 64 + 0x80)] := rfl

/-- A byte is known by its value. -/
theorem ofNat_eq_iff {b : UInt8} {n : Nat} (h : n < 256) : UInt8.ofNat n = b ↔ n = b.toNat := by
  rw [← UInt8.toNat_inj, UInt8.toNat_ofNat', Nat.mod_eq_of_lt h]

/-- What the width that a first byte announces says about the byte. -/
theorem range_of_width {b : UInt8} {n : Nat} (h : width b = n + 1) :
    n = 0 ∧ b.toNat < 0x80 ∨ n = 1 ∧ 0xC2 ≤ b.toNat ∧ b.toNat ≤ 0xDF ∨
      n = 2 ∧ 0xE0 ≤ b.toNat ∧ b.toNat ≤ 0xEF ∨ n = 3 ∧ 0xF0 ≤ b.toNat ∧ b.toNat ≤ 0xF4 := by
  simp only [width] at h
  split at h
  · omega
  · split at h
    · omega
    · split at h
      · omega
      · split at h <;> omega

/-- **Nothing but its encoded form is read as a character.** The first byte has to announce the
width, for `decode?` alone takes any bits of a first byte. -/
theorem encode_of_decode? {first : UInt8} {tail : List UInt8} {c : Char}
    (hw : width first = tail.length + 1) (h : decode? (first :: tail) = some c) :
    String.utf8EncodeChar c = first :: tail := by
  have hlt := first.toNat_lt
  have hmax : c.toNat < 0x110000 := by
    have h := c.valid
    simp only [UInt32.isValidChar, Nat.isValidChar] at h
    show c.val.toNat < _
    omega
  have hrange := range_of_width hw
  rw [utf8EncodeChar_eq]
  match tail with
  | [] =>
    simp only [decode?] at h
    split at h
    · next ha =>
      obtain ⟨-, hc⟩ := scalar?_eq_some_iff.1 h
      rw [if_pos (by omega), List.cons.injEq, ofNat_eq_iff (by omega)]
      exact ⟨hc, rfl⟩
    · cases h
  | [b] =>
    simp only [decode?, Option.bind_eq_bind, Option.bind_eq_some_iff,
      continuation?_eq_some_iff, scalar?_eq_some_iff] at h
    obtain ⟨x, ⟨hb, hb', hx⟩, hle, hc⟩ := h
    simp only [List.length_cons, List.length_nil] at hrange
    rw [if_neg (by omega), if_pos (by omega)]
    simp only [List.cons.injEq, and_true]
    exact ⟨(ofNat_eq_iff (by omega)).2 (by omega), (ofNat_eq_iff (by omega)).2 (by omega)⟩
  | [b, b'] =>
    simp only [decode?, Option.bind_eq_bind, Option.bind_eq_some_iff,
      continuation?_eq_some_iff, scalar?_eq_some_iff] at h
    obtain ⟨x, ⟨hb₁, hb₂, hx⟩, y, ⟨hb₃, hb₄, hy⟩, hle, hc⟩ := h
    simp only [List.length_cons, List.length_nil] at hrange
    rw [if_neg (by omega), if_neg (by omega), if_pos (by omega)]
    simp only [List.cons.injEq, and_true]
    exact ⟨(ofNat_eq_iff (by omega)).2 (by omega), (ofNat_eq_iff (by omega)).2 (by omega),
      (ofNat_eq_iff (by omega)).2 (by omega)⟩
  | [b, b', b''] =>
    simp only [decode?, Option.bind_eq_bind, Option.bind_eq_some_iff,
      continuation?_eq_some_iff, scalar?_eq_some_iff] at h
    obtain ⟨x, ⟨hb₁, hb₂, hx⟩, y, ⟨hb₃, hb₄, hy⟩, z, ⟨hb₅, hb₆, hz⟩, hle, hc⟩ := h
    simp only [List.length_cons, List.length_nil] at hrange
    rw [if_neg (by omega), if_neg (by omega), if_neg (by omega)]
    simp only [List.cons.injEq, and_true]
    exact ⟨(ofNat_eq_iff (by omega)).2 (by omega), (ofNat_eq_iff (by omega)).2 (by omega),
      (ofNat_eq_iff (by omega)).2 (by omega), (ofNat_eq_iff (by omega)).2 (by omega)⟩
  | _ :: _ :: _ :: _ :: _ => cases h

/-- **The encoded form of a character is read as that character**, and its first byte announces
its width. -/
theorem decode?_encode (c : Char) :
    ∃ first tail, String.utf8EncodeChar c = first :: tail ∧ width first = tail.length + 1 ∧
      decode? (first :: tail) = some c := by
  have hvalid := c.valid
  simp only [UInt32.isValidChar, Nat.isValidChar] at hvalid
  have hval : c.val.toNat = c.toNat := rfl
  have hb : ∀ n, n < 256 → (UInt8.ofNat n).toNat = n := fun n h ↦ ((ofNat_eq_iff h).1 rfl).symm
  have hc : ∀ n, continuation? (.ofNat (n % 64 + 0x80)) = some (n % 64) := by
    intro n
    rw [continuation?_eq_some_iff, hb _ (by omega)]
    omega
  rw [utf8EncodeChar_eq]
  split
  · refine ⟨_, _, rfl, ?_, ?_⟩
    · rw [width, hb _ (by omega), if_pos (by omega)]
      rfl
    · rw [decode?, hb _ (by omega), if_pos (by omega), scalar?_eq_some_iff]
      omega
  · split
    · refine ⟨_, _, rfl, ?_, ?_⟩
      · rw [width, hb _ (by omega), if_neg (by omega), if_pos (by omega)]
        rfl
      · simp only [decode?, Option.bind_eq_bind, hc, Option.bind_some, scalar?_eq_some_iff,
          hb (c.toNat / 64 % 32 + 0xC0) (by omega)]
        omega
    · split
      · refine ⟨_, _, rfl, ?_, ?_⟩
        · rw [width, hb _ (by omega), if_neg (by omega), if_neg (by omega), if_pos (by omega)]
          rfl
        · simp only [decode?, Option.bind_eq_bind, hc, Option.bind_some, scalar?_eq_some_iff,
            hb (c.toNat / 4096 % 16 + 0xE0) (by omega)]
          omega
      · refine ⟨_, _, rfl, ?_, ?_⟩
        · rw [width, hb _ (by omega), if_neg (by omega), if_neg (by omega), if_neg (by omega),
            if_pos (by omega)]
          rfl
        · simp only [decode?, Option.bind_eq_bind, hc, Option.bind_some, scalar?_eq_some_iff,
            hb (c.toNat / 262144 % 8 + 0xF0) (by omega)]
          omega

end Utf8

end LexFront
