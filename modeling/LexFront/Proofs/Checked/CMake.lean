import LexFront.Proofs.Checked.Rules
import LexFront.Proofs.CMake.Scanning

/-!
# CMake by offsets

The scanners and decoders of CMake as they take their text apart: openers are measured and cut off,
an unquoted argument is followed by counting its bytes, an escape is cut out of what is still to be
decoded. None of these cuts is ever refused, on no text whatever, because each is made where
something was found.

Key facts:

* `unquotedFrom?_eq`: counting along an argument is reading it.
* `decodeEscapes?_eq`: decoding escape by escape is decoding the text.
* `agrees_checkedLexicon`: the whole table.
-/

set_option autoImplicit false

namespace LexFront.CMake

/-! ### Brackets -/

/-- The size of the opening bracket at the start of a text, and the number of its equals signs. -/
def bracketOpen? : Text → Checked (Option (Nat × Nat))
  | '[' :: rest => do
    let equals := Text.prefixSize (· == '=') rest
    let behind ← Text.from? equals rest
    return if behind.head? = some '[' then some (equals + 2, equals) else none
  | _ => .ok none

/-- A bracket with its content, up to the closing bracket of the same level. -/
def scanBracket? (t : Text) : Checked Scan := do
  match ← bracketOpen? t with
  | none => return .noMatch
  | some (opened, equals) =>
    let content ← Text.from? opened t
    return (Scan.through (closer equals) content).after opened

theorem size_takeWhile_equals (t : Text) :
    Text.prefixSize (· == '=') t = (t.takeWhile (· == '=')).length := by
  have hall : ∀ s : Text, (∀ c ∈ s, c = '=') → Text.size s = s.length := by
    intro s hs
    induction s with
    | nil => rfl
    | cons c s ih =>
      rw [Text.size_cons, hs c List.mem_cons_self, ih fun d hd ↦ hs d (List.mem_cons_of_mem c hd),
        List.length_cons, Nat.add_comm]
      rfl
  exact hall _ fun c hc ↦ by simpa using List.mem_takeWhile_imp hc

theorem bracketOpen?_eq (t : Text) :
    bracketOpen? t = .ok ((level? t).map fun n ↦ (n + 2, n)) := by
  rcases t with _ | ⟨c, rest⟩
  · rfl
  · by_cases hc : c = '['
    · subst hc
      simp only [bracketOpen?, level?]
      rw [(Text.hasRest_prefixSize _ rest).from?_eq, size_takeWhile_equals, Checked.ok_bind]
      split <;> rfl
    · rw [level?_cons hc, bracketOpen?]
      · rfl
      · exact fun _ h ↦ hc (List.cons.inj h).1

theorem scanBracket?_eq (t : Text) : scanBracket? t = .ok (scanBracket t) := by
  rw [scanBracket?, bracketOpen?_eq, Checked.ok_bind]
  cases h : level? t with
  | none =>
    rw [scanBracket, h]
    rfl
  | some n =>
    obtain ⟨rest, rfl⟩ := append_of_level? h
    have hfrom : Text.from? (n + 2) (opener n ++ rest) = .ok rest := by
      rw [← size_opener, Text.from?_append]
    simp only [Option.map_some, hfrom, Checked.ok_bind, Checked.pure_eq]
    rw [scanBracket_of_level?, size_opener]

/-- A number sign and the rest of the line, unless a bracket opens right behind the sign. -/
def scanLineComment? : Text → Checked Scan
  | '#' :: rest => do
    let opened ← bracketOpen? rest
    return if opened = none then .matched (1 + Text.restOfLineSize rest) else .noMatch
  | _ => .ok .noMatch

theorem scanLineComment?_eq (t : Text) : scanLineComment? t = .ok (scanLineComment t) := by
  fun_cases scanLineComment? t with
  | case1 rest =>
    rw [bracketOpen?_eq, Checked.ok_bind, scanLineComment]
    simp
  | case2 t h =>
    rw [scanLineComment]
    exact h

/-- A number sign and a bracket. -/
def scanBracketComment? : Text → Checked Scan
  | '#' :: rest => do
    let found ← scanBracket? rest
    return found.after 1
  | _ => .ok .noMatch

theorem scanBracketComment?_eq (t : Text) :
    scanBracketComment? t = .ok (scanBracketComment t) := by
  fun_cases scanBracketComment? t with
  | case1 rest =>
    rw [scanBracket?_eq]
    rfl
  | case2 t h =>
    rw [scanBracketComment]
    exact h

/-- What stands between the brackets, without a line break right after the opening one. -/
def decodeBracket? (t : Text) : Checked Text := do
  match ← bracketOpen? t with
  | none => return t
  | some (opened, equals) =>
    let stop ← Checked.sub? (← Checked.sub? (Text.size t) equals) 2
    let inner := (Text.slice? opened stop t).getD []
    Text.from? (Text.lineBreakSize inner) inner

theorem decodeBracket?_eq (t : Text) : decodeBracket? t = .ok (decodeBracket t) := by
  rw [decodeBracket?, bracketOpen?_eq, Checked.ok_bind]
  cases h : level? t with
  | none =>
    rw [decodeBracket, h]
    rfl
  | some n =>
    obtain ⟨rest, rfl⟩ := append_of_level? h
    have hsize : Text.size (opener n ++ rest) = n + 2 + Text.size rest := by
      rw [Text.size_append, size_opener]
    simp only [Option.map_some, hsize, Checked.sub?_of_le (by omega : n ≤ n + 2 + Text.size rest),
      Checked.sub?_of_le (by omega : 2 ≤ n + 2 + Text.size rest - n), Checked.ok_bind]
    rw [(Text.hasRest_lineBreakSize _).from?_eq, decodeBracket, h, Nat.sub_sub, hsize]

/-! ### Unquoted arguments -/

/-- The size of what follows the opening quote of a segment, up to its closing quote. There is none
if the line ends before. -/
def closedSize : Text → Option Nat
  | [] => none
  | '"' :: _ => some 1
  | '\\' :: [] => none
  | '\\' :: c :: rest =>
    if Text.isLineBreak c then none else (closedSize rest).map (1 + c.utf8Size + ·)
  | c :: rest => if Text.isLineBreak c then none else (closedSize rest).map (c.utf8Size + ·)

/-- The end of an unquoted argument of which `n` bytes have been passed over. -/
def unquotedFrom? (t : Text) (n : Nat) : Checked Nat :=
  match h : Text.from? n t with
  | .error e => .error e
  | .ok [] => .ok n
  | .ok (c :: rest) =>
    have := Text.lt_size_of_from? h
    if c = '"' ∧ 0 < n then
      match closedSize rest with
      | some size => unquotedFrom? t (n + (1 + size))
      | none => .ok n
    else if endsUnquoted c then .ok n
    else if c = '\\' then
      match Text.from? (n + 1) t with
      | .error e => .error e
      | .ok [] => .ok (n + 1)
      | .ok (d :: _) =>
        if Text.isLineBreak d then .ok (n + 1) else unquotedFrom? t (n + (1 + d.utf8Size))
    else
      have := c.utf8Size_pos
      unquotedFrom? t (n + c.utf8Size)
  termination_by Text.size t - n

/-- A segment that closes is followed by the rest of the argument. -/
theorem segmentSize_eq (t : Text) :
    (closedSize t = none ∧ segmentSize t = none) ∨
      ∃ front rest, t = front ++ rest ∧ closedSize t = some (Text.size front) ∧
        segmentSize t = some (Text.size front + unquotedSize true rest) := by
  induction t using Text.escape_induction with
  | nil => exact .inl ⟨rfl, rfl⟩
  | lone => exact .inl ⟨rfl, rfl⟩
  | escape c rest ih =>
    rw [closedSize, segmentSize]
    split
    · exact .inl ⟨rfl, rfl⟩
    · obtain ⟨hclosed, hsegment⟩ | ⟨front, tail, rfl, hclosed, hsegment⟩ := ih
      · exact .inl ⟨by rw [hclosed]; rfl, by rw [hsegment]; rfl⟩
      · have hsize : Text.size ('\\' :: c :: front) = 1 + c.utf8Size + Text.size front :=
          (Nat.add_assoc ..).symm
        refine .inr ⟨'\\' :: c :: front, tail, rfl, ?_, ?_⟩
        · rw [hclosed, hsize]
          rfl
        · rw [hsegment, hsize, Nat.add_assoc _ (Text.size front)]
          rfl
  | cons c rest hb ih =>
    by_cases hq : c = '"'
    · subst hq
      exact .inr ⟨['"'], rest, rfl, rfl, rfl⟩
    · have hcons : closedSize (c :: rest) =
          if Text.isLineBreak c then none else (closedSize rest).map (c.utf8Size + ·) := by
        rw [closedSize]
        · exact fun h ↦ hq h
        · exact fun h _ ↦ hb h
        · exact fun _ _ h _ ↦ hb h
      rw [hcons, segmentSize_cons hq hb]
      split
      · exact .inl ⟨rfl, rfl⟩
      · obtain ⟨hclosed, hsegment⟩ | ⟨front, tail, rfl, hclosed, hsegment⟩ := ih
        · exact .inl ⟨by rw [hclosed]; rfl, by rw [hsegment]; rfl⟩
        · refine .inr ⟨c :: front, tail, rfl, ?_, ?_⟩
          · rw [hclosed]
            rfl
          · rw [hsegment]
            simp [Nat.add_assoc]

/-- Behind its first character an argument goes on after a segment, or ends before its quote. -/
theorem unquotedSize_quote (t : Text) :
    (closedSize t = none ∧ unquotedSize true ('"' :: t) = 0) ∨
      ∃ front rest, t = front ++ rest ∧ closedSize t = some (Text.size front) ∧
        unquotedSize true ('"' :: t) = 1 + Text.size front + unquotedSize true rest := by
  rw [unquotedSize, if_pos rfl]
  obtain ⟨hclosed, hsegment⟩ | ⟨front, rest, ht, hclosed, hsegment⟩ := segmentSize_eq t
  · exact .inl ⟨hclosed, by rw [hsegment]; rfl⟩
  · exact .inr ⟨front, rest, ht, hclosed, by rw [hsegment, Nat.add_assoc]; rfl⟩

/-- **Counting along an argument is reading it**: every count falls between two characters. -/
theorem unquotedFrom?_eq {t rest : Text} {n : Nat} (h : t.HasRest n rest) :
    unquotedFrom? t n = .ok (n + unquotedSize (decide (0 < n)) rest) := by
  have hstarted : ∀ n k, 0 < k → decide (0 < n + k) = true := fun n k hk ↦
    decide_eq_true (Nat.add_pos_right n hk)
  fun_induction unquotedFrom? t n generalizing rest with
  | case1 n e he => exact (h.ne_error he).elim
  | case2 n he =>
    obtain rfl := h.eq_of_from? he
    rfl
  | case3 n c tail hfrom _ hquote size hclosed ih =>
    -- A segment is passed over as a whole.
    obtain rfl := h.eq_of_from? hfrom
    obtain ⟨rfl, hn⟩ := hquote
    rw [decide_eq_true hn]
    obtain ⟨hnone, -⟩ | ⟨front, rest, rfl, hsome, hsize⟩ := unquotedSize_quote tail
    · rw [hnone] at hclosed
      cases hclosed
    · obtain rfl := Option.some.inj (hsome.symm.trans hclosed)
      have hpast : t.HasRest (n + 1 + Text.size front) rest := h.cons.append
      rw [ih (by rwa [← Nat.add_assoc]), hstarted n _ (by omega), hsize, Nat.add_assoc n]
  | case4 n c tail hfrom _ hquote hclosed =>
    obtain rfl := h.eq_of_from? hfrom
    obtain ⟨rfl, hn⟩ := hquote
    rw [decide_eq_true hn]
    obtain ⟨-, hzero⟩ | ⟨front, rest, rfl, hsome, -⟩ := unquotedSize_quote tail
    · rw [hzero]
      rfl
    · rw [hsome] at hclosed
      cases hclosed
  | case5 n c tail hfrom _ hquote hends =>
    obtain rfl := h.eq_of_from? hfrom
    by_cases hc : c = '"'
    · subst hc
      rw [unquotedSize, if_neg (by simpa using hquote)]
      rfl
    · rw [unquotedSize_cons hc (by rintro rfl; cases hends), if_pos hends]
      rfl
  | case6 n tail e he hfrom =>
    obtain rfl := h.eq_of_from? hfrom
    exact (h.cons.ne_error he).elim
  | case7 n tail hback hfrom =>
    obtain rfl := h.eq_of_from? hfrom
    obtain rfl := h.cons.eq_of_from? hback
    rfl
  | case8 n tail d rest hback hd hfrom =>
    obtain rfl := h.eq_of_from? hfrom
    obtain rfl := h.cons.eq_of_from? hback
    rw [unquotedSize, if_pos hd]
  | case9 n tail d rest hback hd hfrom _ _ _ ih =>
    obtain rfl := h.eq_of_from? hfrom
    obtain rfl := h.cons.eq_of_from? hback
    have hpast : t.HasRest (n + 1 + d.utf8Size) rest := h.cons.cons
    rw [ih (by rwa [← Nat.add_assoc]), hstarted n _ (by omega), unquotedSize, if_neg hd,
      Nat.add_assoc]
  | case10 n c tail hfrom _ hquote hends hb hsize ih =>
    obtain rfl := h.eq_of_from? hfrom
    have hc : c ≠ '"' := by
      rintro rfl
      exact hends rfl
    rw [ih h.cons, hstarted n _ hsize, unquotedSize_cons hc hb, if_neg hends, Nat.add_assoc]

/-- An unquoted argument. -/
def scanUnquoted? (t : Text) : Checked Scan := Scan.ofSize <$> unquotedFrom? t 0

theorem scanUnquoted?_eq (t : Text) : scanUnquoted? t = .ok (scanUnquoted t) := by
  rw [scanUnquoted?, unquotedFrom?_eq (Text.hasRest_zero t), Nat.zero_add]
  rfl

/-! ### Escapes -/

/-- What the escape at the start of a text decodes to, and what is left behind it. -/
def cutEscape? (escape : Text) : Checked (Text × Text) := do
  let behind ← Text.from? 1 escape
  let n := behind.head?.elim 1 (1 + Char.utf8Size ·)
  let sequence ← Text.upto? n escape
  let rest ← Text.from? n escape
  let decoded := if sequence = ['\\', ';'] then sequence else Text.unescape sequence
  -- A line break of two characters is escaped as a whole.
  let isCut := sequence.getLast? = some '\r' ∧ rest.head? = some '\n'
  return (decoded, if isCut then rest.tail else rest)

/-- What comes out up to the first escape and from it, and what is left behind it. -/
def nextEscape? (t : Text) : Checked (Option (Text × Text)) :=
  match Text.before? ['\\'] t with
  | none => .ok none
  | some found => do
    let front ← Text.upto? (Text.size found) t
    let escape ← Text.from? (Text.size found) t
    let (decoded, rest) ← cutEscape? escape
    return some (front ++ decoded, rest)

theorem cutEscape?_lone : cutEscape? ['\\'] = .ok (['\\'], []) := rfl

theorem cutEscape?_cons (c : Char) (rest : Text) :
    ∃ decoded left, cutEscape? ('\\' :: c :: rest) = .ok (decoded, left) ∧
      left.length ≤ rest.length ∧
      decodeEscapes ('\\' :: c :: rest) = decoded ++ decodeEscapes left := by
  have hbehind : Text.from? 1 ('\\' :: c :: rest) = .ok (c :: rest) :=
    Text.from?_append ['\\'] (c :: rest)
  have hsequence : Text.upto? (1 + c.utf8Size) ('\\' :: c :: rest) = .ok ['\\', c] :=
    Text.upto?_append ['\\', c] rest
  have hrest : Text.from? (1 + c.utf8Size) ('\\' :: c :: rest) = .ok rest :=
    Text.from?_append ['\\', c] rest
  simp only [cutEscape?, hbehind, Checked.ok_bind, List.head?_cons, Option.elim_some, hsequence,
    hrest, Checked.pure_eq]
  refine ⟨_, _, rfl, ?_, ?_⟩
  · split
    · exact List.length_tail ▸ Nat.sub_le _ 1
    · exact le_rfl
  · by_cases hs : c = ';'
    · subst hs
      rw [if_pos rfl, if_neg (fun h ↦ absurd h.1 (by decide))]
      rfl
    · rw [if_neg (by simpa using hs), Text.unescape_pair]
      by_cases hcut : c = '\r' ∧ rest.head? = some '\n'
      · obtain ⟨rfl, hhead⟩ := hcut
        obtain ⟨tail, rfl⟩ := List.head?_eq_some_iff.1 hhead
        rw [if_pos ⟨rfl, rfl⟩]
        rfl
      · rw [if_neg (by simpa using hcut), decodeEscapes]
        · exact hs
        · rintro tail rfl rfl
          exact hcut ⟨rfl, rfl⟩

theorem decodeEscapes_append {front : Text} (h : '\\' ∉ front) (t : Text) :
    decodeEscapes (front ++ t) = front ++ decodeEscapes t := by
  induction front with
  | nil => rfl
  | cons c front ih =>
    obtain ⟨hc, hfront⟩ := not_or.1 (List.mem_cons.not.1 h)
    have hcons : decodeEscapes (c :: (front ++ t)) = c :: decodeEscapes (front ++ t) := by
      rw [decodeEscapes]
      · exact fun h _ ↦ hc h.symm
      · exact fun _ h _ ↦ hc h.symm
      · exact fun _ h _ ↦ hc h.symm
      · exact fun _ _ h _ ↦ hc h.symm
    rw [List.cons_append, hcons, ih hfront]
    rfl

/-- What looking for the next escape of a text says about decoding it. -/
inductive Decodes (t : Text) : Option (Text × Text) → Prop where
  | plain : decodeEscapes t = t → Decodes t none
  | escape {decoded rest : Text} : rest.length < t.length →
      decodeEscapes t = decoded ++ decodeEscapes rest → Decodes t (some (decoded, rest))

/-- **One step of decoding**: nothing is escaped, or an escape is taken out of the text. -/
theorem nextEscape?_spec (t : Text) : ∃ found, nextEscape? t = .ok found ∧ Decodes t found := by
  obtain ⟨hnone, hfree⟩ | ⟨front, behind, rfl, hsome, hfree⟩ := Text.before?_singleton '\\' t
  · have hplain := decodeEscapes_append hfree []
    rw [List.append_nil] at hplain
    exact ⟨none, by rw [nextEscape?, hnone],
      .plain (by rw [hplain, decodeEscapes, List.append_nil])⟩
  · have hcut : ∃ decoded left, cutEscape? ('\\' :: behind) = .ok (decoded, left) ∧
        left.length ≤ behind.length ∧
        decodeEscapes ('\\' :: behind) = decoded ++ decodeEscapes left := by
      cases behind with
      | nil => exact ⟨_, _, cutEscape?_lone, le_rfl, rfl⟩
      | cons c rest =>
        obtain ⟨decoded, left, hcut, hleft, hdecode⟩ := cutEscape?_cons c rest
        exact ⟨decoded, left, hcut, hleft.trans (Nat.le_succ _), hdecode⟩
    obtain ⟨decoded, left, hcut, hleft, hdecode⟩ := hcut
    refine ⟨some (front ++ decoded, left), ?_, .escape ?_ ?_⟩
    · simp only [nextEscape?, hsome, Text.upto?_append, Text.from?_append, Checked.ok_bind, hcut,
        Checked.pure_eq]
    · rw [List.length_append, List.length_cons]
      omega
    · rw [decodeEscapes_append hfree, hdecode, List.append_assoc]

theorem decodes_of_nextEscape? {t : Text} {found : Option (Text × Text)}
    (h : nextEscape? t = .ok found) : Decodes t found := by
  obtain ⟨found', hfound, hdecodes⟩ := nextEscape?_spec t
  obtain rfl := Except.ok.inj (hfound.symm.trans h)
  exact hdecodes

/-- Decodes escape by escape. -/
def decodeEscapes? (t : Text) : Checked Text :=
  match h : nextEscape? t with
  | .error e => .error e
  | .ok none => .ok t
  | .ok (some (decoded, rest)) =>
    have : rest.length < t.length := by
      cases decodes_of_nextEscape? h with
      | escape hlt _ => exact hlt
    (decoded ++ ·) <$> decodeEscapes? rest
  termination_by t.length

theorem decodeEscapes?_eq (t : Text) : decodeEscapes? t = .ok (decodeEscapes t) := by
  fun_induction decodeEscapes? t with
  | case1 t e he =>
    obtain ⟨found, hfound, -⟩ := nextEscape?_spec t
    rw [hfound] at he
    cases he
  | case2 t hnone =>
    cases decodes_of_nextEscape? hnone with
    | plain hplain => rw [hplain]
  | case3 t decoded rest hsome _ ih =>
    cases decodes_of_nextEscape? hsome with
    | escape _ hdecode =>
      rw [ih, hdecode]
      rfl

/-- What stands between the quotes, decoded. -/
def decodeQuoted? (t : Text) : Checked Text :=
  decodeEscapes? (Text.stripDelimiters ['"'] ['"'] t)

/-! ### The lexicon -/

/-- The rules of CMake by offsets. Where a rule only looks at characters there is nothing to
check. -/
def checkedLexicon : CheckedLexicon Kind where
  name := "cmake"
  rules :=
    [⟨.whitespace, fun t ↦ .ok (scanWhitespace t), .ok⟩,
      ⟨.newline, fun t ↦ .ok (scanNewline t), .ok⟩,
      ⟨.lineComment, scanLineComment?, .ok⟩,
      ⟨.bracketComment, scanBracketComment?, .ok⟩,
      ⟨.keyword, Scan.keyword? isKeyword, fun t ↦ .ok (Text.lower t)⟩,
      ⟨.identifier, fun t ↦ .ok (scanIdentifier t), .ok⟩,
      ⟨.leftParen, fun t ↦ .ok (scanChar '(' t), .ok⟩,
      ⟨.rightParen, fun t ↦ .ok (scanChar ')' t), .ok⟩,
      ⟨.quotedArgument, fun t ↦ .ok (scanQuoted t), decodeQuoted?⟩,
      ⟨.bracketArgument, scanBracket?, decodeBracket?⟩,
      ⟨.unquotedArgument, scanUnquoted?, decodeEscapes?⟩]

/-- **No rule of CMake is ever refused a step.** -/
theorem agrees_checkedLexicon : checkedLexicon.Agrees lexicon where
  name := rfl
  rules := by
    have hok : ∀ {k : Kind} {scan : Text → Scan} {decode : Text → Text},
        CheckedRule.Agrees ⟨k, fun t ↦ .ok (scan t), fun t ↦ .ok (decode t)⟩ ⟨k, scan, decode⟩ :=
      ⟨rfl, fun _ ↦ rfl, fun _ ↦ rfl⟩
    refine .cons hok (.cons hok (.cons ?_ (.cons ?_ (.cons ?_ (.cons hok (.cons hok
      (.cons hok (.cons ?_ (.cons ?_ (.cons ?_ .nil))))))))))
    · exact ⟨rfl, scanLineComment?_eq, fun _ ↦ rfl⟩
    · exact ⟨rfl, scanBracketComment?_eq, fun _ ↦ rfl⟩
    · exact ⟨rfl, Scan.keyword?_eq isKeyword, fun _ ↦ rfl⟩
    · exact ⟨rfl, fun _ ↦ rfl, fun _ ↦ decodeEscapes?_eq _⟩
    · exact ⟨rfl, scanBracket?_eq, decodeBracket?_eq⟩
    · exact ⟨rfl, scanUnquoted?_eq, decodeEscapes?_eq⟩

end LexFront.CMake
