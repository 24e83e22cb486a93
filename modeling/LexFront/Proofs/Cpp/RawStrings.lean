import LexFront.Proofs.Cpp.SplicedGaps
import LexFront.Proofs.Cpp.SplicedLiterals
import LexFront.Proofs.Lexer.Sighting

/-!
# Raw strings are verbatim

A raw string ends where its closer first occurs, and what stands in front of the closer is its
value: line breaks, backslashes, quotes and splices are characters like all others. Its rule looks
at the text as it was written, unlike all other rules, which pass over splices. They do not get in
its way, for none of them finds more than the word in front of the first quote, and none of them
asks for more.

The lexer takes lines until the closer is in sight. No window ends inside the opener, for there is
no line break in it. So every window either shows all of the literal, or asks for more and is
shorter than the literal.

Key facts:

* `found_of_opensRaw`: where a raw string opens, the rule for strings decides alone.
* `IsRaw.scanString_window`: a window has the literal in it, or is shorter and asks for more.
* `IsRaw.decodeString_rawString`: the decoder finds the delimiter again, and gives the content.
* `IsRaw.isSighted`: so the lexer finds it, wherever its windows end.
* `rawString_of_run`: a raw string at the start of a unit is its first lexeme, with its content.
-/

set_option autoImplicit false

namespace LexFront.Cpp

/-- A raw string with an encoding `e`, a delimiter `d` and a content `c`. -/
def rawString (e d c : Text) : Text := e ++ rawOpener d ++ (c ++ rawCloser d)

/-- The parts of a raw string. -/
structure IsRaw (e d c : Text) : Prop where
  encoding : e = [] ∨ e ∈ encodings
  delimiter : IsDelimiter d
  /-- The closer that comes behind the content is the first one. -/
  content : Text.before? (rawCloser d) (c ++ rawCloser d) = some c

theorem isDelimiter_of_forall_not_mem {d : Text}
    (hd : ∀ b ∈ d, b ∉ ['(', ')', '\\', '"', ' ', '\t', '\n', '\r']) (hsize : Text.size d ≤ 16) :
    IsDelimiter d := by
  refine ⟨fun b hb ↦ ?_, hsize⟩
  have hnot := hd b hb
  simp only [List.mem_cons, List.not_mem_nil, or_false, not_or] at hnot
  simp [isRawDelimiter, hnot]

theorem size_rawCloser (d : Text) : Text.size (rawCloser d) = Text.size d + 2 := by
  have hparen : Char.utf8Size ')' = 1 := rfl
  have hquote : Char.utf8Size '"' = 1 := rfl
  simp only [rawCloser, Text.size_cons, Text.size_append, Text.size_nil, hparen, hquote]
  omega

/-! ### Where a raw string opens -/

/-- Among the rules that pass over splices none asks for more. -/
theorem scanPieces_ne_needMore_of_opensRaw {w : Text} (hraw : opensRaw w = true) {p : PlainRule}
    (hp : p ∈ plainRules) : scanPieces p.extendable p.scan (pieces w) ≠ .needMore := by
  obtain ⟨e, r, he, hchars⟩ := unsplice_of_opensRaw hraw
  have hword : unsplice w = (e ++ ['R']) ++ '"' :: r := by rw [hchars]; simp
  have hscan := scan_rawOpener he r hp
  rw [← hchars, unsplice] at hscan
  rw [Ne, scanPieces_eq_needMore_iff]
  rintro (hmore | ⟨-, -, hall⟩)
  · rcases hscan with hs | hs <;> cases hs.symm.trans hmore
  · rcases hscan with hs | hs
    · cases hs.symm.trans hall
    · have hsize := Scan.matched.inj (hs.symm.trans hall)
      have hpos : 0 < Text.size ('"' :: r) := Text.size_pos (by simp)
      rw [← unsplice, hword, Text.size_append (e ++ ['R'])] at hsize
      omega

/-- **Where a raw string opens, the rule for strings decides alone.** -/
theorem found_of_opensRaw {w : Text} (hraw : opensRaw w = true) :
    (∃ i n, Lexicon.longestMatch lexicon.rules w = .matched i n ∧ scanString w = .matched n ∧
        lexicon.rules[i]? = some ⟨.stringLiteral, scanString, decodeString⟩) ∨
      ∃ i, Lexicon.longestMatch lexicon.rules w = .needMore i ∧ scanString w = .needMore := by
  cases hm : Lexicon.longestMatch lexicon.rules w with
  | noMatch => exact absurd hm (longestMatch_of_opensRaw hraw).1
  | needMore i =>
    refine .inr ⟨i, rfl, (exists_needMore_iff.1 ⟨i, hm⟩).resolve_right ?_⟩
    rintro ⟨p, hp, -, hs⟩
    exact scanPieces_ne_needMore_of_opensRaw hraw hp hs
  | matched i n =>
    obtain ⟨text, back, ht, rfl⟩ := exists_front_of_longestMatch hm
    obtain ⟨⟨r, hr, hscan⟩, -, -⟩ := Lexicon.scan_of_longestMatch_eq_matched hm
    obtain rfl : r = ⟨.stringLiteral, scanString, decodeString⟩ :=
      rule_unique (List.mem_of_getElem? hr) (by simp [lexicon])
        (terminal_of_opensRaw hraw ht hm hr).1
    exact .inl ⟨i, _, rfl, hscan, hr⟩

/-- A raw string that is closed stays as it is when more follows. -/
theorem scanString_append_of_opensRaw {w : Text} (hraw : opensRaw w = true) {n : Nat}
    (h : scanString w = .matched n) (u : Text) : scanString (w ++ u) = .matched n := by
  obtain ⟨e, d, he, hd, content, rfl⟩ := opensRaw_iff.1 hraw
  rw [scanString_rawOpener he hd] at h
  rw [List.append_assoc, scanString_rawOpener he hd]
  have hextends := (Scan.extends_through (rawCloser d) content u).after (e ++ rawOpener d)
  exact (hextends.keep (h ▸ by simp)).trans h

/-! ### One raw string -/

namespace IsRaw

variable {e d c : Text}

/-- **A window has the literal in it, or is shorter and asks for more.** -/
theorem scanString_window (h : IsRaw e d c) {w v r : Text} (hwindow : Lexicon.IsWindow w v)
    (ht : w ++ v = rawString e d c ++ r) : opensRaw w = true ∧
      (rawString e d c <+: w ∧ scanString w = .matched (Text.size (rawString e d c)) ∨
        Text.size w < Text.size (rawString e d c) ∧ scanString w = .needMore) := by
  have hopener : e ++ rawOpener d <+: w := by
    refine rawOpener_prefix_of_append h.encoding h.delimiter hwindow ?_
    rw [ht, rawString, List.append_assoc]
    exact List.prefix_append _ _
  refine ⟨opensRaw_iff.2 ⟨e, d, h.encoding, h.delimiter, hopener⟩, ?_⟩
  obtain ⟨k, rfl⟩ := hopener
  rw [rawString, List.append_assoc, List.append_assoc _ _ r] at ht
  have hcontent := Text.before?_append_of_some h.content r
  rw [← List.append_cancel_left ht] at hcontent
  rw [scanString_rawOpener h.encoding h.delimiter, Scan.through]
  -- The closer is behind the content, whether or not the window goes that far.
  cases hk : Text.before? (rawCloser d) k with
  | some inner =>
    obtain rfl := Option.some.inj ((Text.before?_append_of_some hk v).symm.trans hcontent)
    obtain ⟨rest, rfl⟩ := Text.append_of_before? hk
    refine .inl ⟨⟨rest, by simp [rawString]⟩, ?_⟩
    simp [rawString, Scan.after, Nat.add_assoc]
  | none =>
    have hlt := Text.size_lt_of_before?_append hk hcontent
    refine .inr ⟨?_, rfl⟩
    rw [rawString, Text.size_append, Text.size_append (e ++ rawOpener d)]
    omega

/-- **The decoder finds the delimiter again**, and gives the content as it stands in the literal. -/
theorem decodeString_rawString (h : IsRaw e d c) : decodeString (rawString e d c) = c := by
  have hfront : ∀ e ∈ [] :: encodings, '"' ∉ e ++ ['R'] := by decide
  have hdelimiter : '(' ∉ d := fun hmem ↦ absurd (h.delimiter.1 _ hmem) (by decide)
  have hliteral : rawString e d c = (e ++ ['R']) ++ '"' :: ((d ++ ['(']) ++ c ++ rawCloser d) := by
    simp [rawString, rawOpener]
  have htake : (rawString e d c).takeWhile (· != '"') = e ++ ['R'] := by
    rw [hliteral, Text.takeWhile_ne (hfront e (List.mem_cons.2 h.encoding))]
  have hstart : Text.prefixSize (· != '(') ((d ++ ['(']) ++ c ++ rawCloser d) = Text.size d := by
    rw [Text.prefixSize, List.append_assoc, List.append_assoc, List.singleton_append,
      Text.takeWhile_ne hdelimiter]
  have hparen : Text.size d + 1 = Text.size (d ++ ['(']) := by
    rw [Text.size_append]
    rfl
  have hend : Text.size ((d ++ ['(']) ++ c ++ rawCloser d) - (Text.size d + 2) =
      Text.size ((d ++ ['(']) ++ c) := by
    rw [Text.size_append _ (rawCloser d), size_rawCloser, Nat.add_sub_cancel]
  rw [decodeString]
  simp only [htake]
  rw [hliteral, List.drop_left]
  simp only
  rw [if_pos (by simp), if_pos (by simp), hstart, hend, hparen, slice?_middle]
  rfl

/-- **Every window finds the literal**, or asks for more of it. -/
theorem isSighted (h : IsRaw e d c) (r : Text) :
    Lexer.IsSighted lexicon.rules .stringLiteral (rawString e d c) c (rawString e d c ++ r) := by
  intro w v _ hwindow ht
  obtain ⟨hraw, hscan⟩ := h.scanString_window hwindow ht
  rcases found_of_opensRaw hraw with ⟨i, n, hm, hfound, hr⟩ | ⟨i, hm, hfound⟩
  · rcases hscan with ⟨⟨back, rfl⟩, hscan⟩ | ⟨-, hscan⟩
    · obtain rfl := Scan.matched.inj (hfound.symm.trans hscan)
      exact .whole rfl hm hr rfl h.decodeString_rawString
    · cases hfound.symm.trans hscan
  · rcases hscan with ⟨-, hscan⟩ | ⟨hlt, -⟩
    · cases hfound.symm.trans hscan
    · exact .part hlt hm

/-- **A call that has a raw string before it** hands it out, and leaves what follows it. -/
theorem next_eq (h : IsRaw e d c) {l : Lexer Kind} {read r : Text} (hlocated : l.Located read)
    (hlexicon : l.lexicon = lexicon) (live : l.IsLive) (hshow : l.Shows)
    (hpending : l.pending = rawString e d c ++ r)
    (hlength : Text.size (rawString e d c) ≤ l.maxLength) (hcount : l.tally.total < l.maxCount) :
    l.next.1 = .valid (.covering .stringLiteral (rawString e d c) c l.location) ∧
      l.next.2.pending = r := by
  have hne : rawString e d c ≠ [] := by simp [rawString, rawOpener]
  have hsighted := h.isSighted r
  rw [← hlexicon] at hsighted
  exact Lexer.next_of_sights hlocated live hshow hne hsighted hpending hlength hcount

end IsRaw

/-! ### Units -/

/-- **Raw strings are verbatim.** A unit that begins with a raw string has it for its first lexeme,
whatever follows it, and its value is its content, character for character. Nothing is asked of the
content but that it does not close the string; it may have line breaks, splices, quotes, openers of
comments and other strings, and closers with another delimiter. -/
theorem rawString_of_run (preferences : LexicalPreferences) (unit : String) {e d c r : Text}
    (he : e ∈ [[], ['u', '8'], ['u'], ['U'], ['L']])
    (hd : ∀ b ∈ d, b ∉ ['(', ')', '\\', '"', ' ', '\t', '\n', '\r']) (hsize : Text.size d ≤ 16)
    (hc : Text.before? (rawCloser d) (c ++ rawCloser d) = some c)
    {feed : Feed} (hfeed : feed.Delivers (rawString e d c ++ r))
    {unitLimit lineLimit maxLength maxCount : Nat}
    (hunit : Text.size (rawString e d c ++ r) ≤ unitLimit)
    (hlines : (rawString e d c ++ r).FitsLines lineLimit)
    (hlength : Text.size (rawString e d c) ≤ maxLength) (hcount : 0 < maxCount) :
    let l := (Lexer.ofDecoder lexicon preferences unit { feed, limit := unitLimit }
      lineLimit).withLimits maxLength maxCount
    l.lexemes.head? =
        some (.valid (.covering .stringLiteral (rawString e d c) c (.start unit))) ∧
      l.next.2.pending = r := by
  intro l
  have h : IsRaw e d c := ⟨List.mem_cons.1 he, isDelimiter_of_forall_not_mem hd hsize, hc⟩
  obtain ⟨hlocated, live, hshow, hpending, hlocation, -⟩ :=
    Lexer.located_of_delivers lexicon preferences unit maxLength maxCount hfeed hunit hlines
  obtain ⟨hnext, hrest⟩ := h.next_eq (l := l) hlocated rfl live hshow hpending hlength hcount
  rw [hlocation] at hnext
  refine ⟨?_, hrest⟩
  rw [Lexer.lexemes_of_next (by simp [hnext]), List.head?_cons, hnext]

/-- A raw string of three lines with an encoding. In it there are a splice, a quote, the opener of a
comment, and what would close it with another delimiter or with none; an open comment follows it. -/
theorem rawString_of_run_splice :
    let c : Text := ['\\', '\n', '"', ')', '"', '/', '*', ')', 'x', ' ', '"', '\r']
    let r : Text := ['/', '*']
    let t := rawString ['u', '8'] ['x'] c
    let l := Lexer.ofDecoder lexicon {} "u" { feed := .ofBytes (Text.encode (t ++ r)) }
    t = ['u', '8', 'R', '"', 'x', '('] ++ c ++ [')', 'x', '"'] ∧
      l.lexemes.head? = some (.valid (.covering .stringLiteral t c (.start "u"))) ∧
      l.next.2.pending = r := by
  intro c r t l
  have hsize : Text.size (t ++ r) ≤ 23 := by decide
  refine ⟨rfl, ?_⟩
  exact rawString_of_run {} "u" (e := ['u', '8']) (d := ['x']) (c := c) (r := r) (by decide)
    (by simp) (by decide) (by decide) (Feed.delivers_ofBytes (t ++ r))
    (Nat.le_trans hsize (by decide : 23 ≤ Limits.unitSize))
    (Text.fitsLines_of_size_le (Nat.le_trans hsize (by decide : 23 ≤ Limits.lineLength)))
    (by decide : _ ≤ Limits.tokenLength) (by decide : 0 < Limits.tokenCount)

end LexFront.Cpp
