import LexFront.Proofs.CMake.Scanning
import LexFront.Proofs.Cpp.Scanning
import LexFront.Proofs.Lexer.WholeText

/-!
# Both languages

What holds of every run of the lexer under a condition on its lexicon holds of CMake and of C++,
for the rules of both are known to keep line breaks whole, and to be stable: those of CMake on all
texts, those of C++ on texts without splices.

Key facts:

* `tiles_of_run`: the lexemes of a unit tile it.
* `lexemes_of_text`: the lexemes of a unit are those of its whole text.
-/

set_option autoImplicit false

namespace LexFront

namespace CMake

/-- **The rules of CMake are stable.** -/
theorem isStable : Lexicon.IsStable lexicon.rules fun _ ↦ True where
  toKeepsBreaks := keepsBreaks
  answers _ hr _ _ _ hw hseam := extends_of_mem hr hw hseam
  suffix _ _ _ := trivial

end CMake

namespace Cpp

/-- **The rules of C++ are stable where there is no splice.** -/
theorem isStable : Lexicon.IsStable lexicon.rules IsSpliceFree where
  toKeepsBreaks := keepsBreaks
  answers _ hr _ _ hwv hw hseam := extends_of_mem hr hwv hw hseam
  suffix s t h := h.of_infix (List.suffix_append s t).isInfix

end Cpp

namespace Lexer

/-- **The lexemes of a unit tile it**, for both languages and whatever the source does. Each lexeme
starts where the one before it ends, which is where reading all lexemes before it leads to, and the
lines that the splitter counts are where reading leads to as well. -/
theorem tiles_of_run (preferences : LexicalPreferences) (unit : String) (feed : Feed)
    (unitLimit lineLimit maxLength maxCount : Nat) :
    let decoder : Decoder := { feed, limit := unitLimit }
    let splitter : Splitter := { unit, decoder, limit := lineLimit }
    let cmake := (ofDecoder CMake.lexicon preferences unit decoder lineLimit).withLimits
      maxLength maxCount
    let cpp := (ofDecoder Cpp.lexicon preferences unit decoder lineLimit).withLimits
      maxLength maxCount
    cmake.IsTiled ∧ cpp.IsTiled ∧ cmake.unit = unit ∧ cpp.unit = unit ∧
      ∀ front line back, splitter.rest.1 = front ++ line :: back →
        line.location = (Location.start unit).advance (front.flatMap Line.raw) ∧
          line.endLocation =
            (Location.start unit).advance ((front ++ [line]).flatMap Line.raw) := by
  intro decoder splitter cmake cpp
  refine ⟨?_, ?_, ?_, ?_, ?_⟩
  · exact (located_ofDecoder CMake.lexicon preferences unit decoder lineLimit maxLength
      maxCount).isTiled CMake.keepsBreaks
  · exact (located_ofDecoder Cpp.lexicon preferences unit decoder lineLimit maxLength
      maxCount).isTiled Cpp.keepsBreaks
  · exact LineStream.unit_ofSplitter _ splitter
  · exact LineStream.unit_ofSplitter _ splitter
  · exact fun _ _ _ h ↦ Splitter.locations_of_rest unit decoder lineLimit h

/-- **The lexemes of a unit are those of its whole text**, although the lexer sees one line at a
time. That goes for every CMake text, and for every C++ text without splices, as long as no limit
is passed and the source does not fail. -/
theorem lexemes_of_text (preferences : LexicalPreferences) (unit : String) {feed : Feed} {t : Text}
    {unitLimit lineLimit : Nat} (maxLength maxCount : Nat) (ht : feed.Delivers t)
    (hunit : Text.size t ≤ unitLimit) (hlines : t.FitsLines lineLimit) :
    let decoder : Decoder := { feed, limit := unitLimit }
    let cmake := (ofDecoder CMake.lexicon preferences unit decoder lineLimit).withLimits
      maxLength maxCount
    let cpp := (ofDecoder Cpp.lexicon preferences unit decoder lineLimit).withLimits
      maxLength maxCount
    (Admits maxLength maxCount (CMake.lexicon.lex (.start unit) t) →
        cmake.lexemes = CMake.lexicon.lex (.start unit) t) ∧
      (Cpp.IsSpliceFree t → Admits maxLength maxCount (Cpp.lexicon.lex (.start unit) t) →
        cpp.lexemes = Cpp.lexicon.lex (.start unit) t) := by
  intro decoder cmake cpp
  exact ⟨lexemes_of_delivers CMake.isStable preferences unit ht hunit hlines trivial,
    lexemes_of_delivers Cpp.isStable preferences unit ht hunit hlines⟩

/-- A text within default limits, with a construct of several lines in each language. -/
theorem lexemes_of_text_comment :
    let t : Text := ['x', '/', '*', '[', '[', '\n', ']', ']', '*', '/', '\n', '"', '\n']
    let decoder : Decoder := { feed := .ofBytes (Text.encode t) }
    (ofDecoder CMake.lexicon {} "u" decoder).lexemes = CMake.lexicon.lex (.start "u") t ∧
      (ofDecoder Cpp.lexicon {} "u" decoder).lexemes = Cpp.lexicon.lex (.start "u") t := by
  intro t decoder
  have hsize : Text.size t ≤ 13 := by decide
  have hfree : Cpp.IsSpliceFree t := Cpp.isSpliceFree_of_not_mem (by decide)
  have hadmits : ∀ {T : Type} [Terminal T] (lexicon : Lexicon T),
      Admits Limits.tokenLength Limits.tokenCount (lexicon.lex (.start "u") t) := by
    intro T _ lexicon
    refine ⟨fun x hx _ ↦ ?_, ?_⟩
    · exact Nat.le_trans (Lexicon.size_le_of_mem_lex hx) (Nat.le_trans hsize (by decide))
    · exact Nat.le_trans (lexicon.length_lex_le _ t) (by decide)
  have h := lexemes_of_text {} "u" Limits.tokenLength Limits.tokenCount (Feed.delivers_ofBytes t)
    (Nat.le_trans hsize (by decide : 13 ≤ Limits.unitSize))
    (Text.fitsLines_of_size_le (Nat.le_trans hsize (by decide : 13 ≤ Limits.lineLength)))
  exact ⟨h.1 (hadmits _), h.2 hfree (hadmits _)⟩

end Lexer

end LexFront
