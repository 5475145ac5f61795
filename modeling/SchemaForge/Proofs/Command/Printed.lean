import SchemaForge.Command.Plan
import SchemaForge.Proofs.Text.Lines

/-!
# `Proofs.Command.Printed` — what is printed of a text

What an import emits is printed on lines of its own: the white space at its end is taken off, and a
line feed follows. Nothing but that line feed changes if the text ends in a character that can be
seen, and code always does: a declaration ends in a brace, a bracket or a semicolon.

## Contents
- **Ends.** `EndsVisibly`, and `trimmedLines_of_endsVisibly`.
- **Code.** `endsVisibly_validatorAndType`.
-/

namespace SchemaForge

open Text

/-! ## The end of a text -/

/-- The text has a last character, and it is no white space. -/
def EndsVisibly (text : String) : Prop :=
  ∃ c, text.toList.getLast? = some c ∧ isBlank c = false

theorem EndsVisibly.append_left {text : String} (h : EndsVisibly text) (front : String) :
    EndsVisibly (front ++ text) := by
  obtain ⟨c, hlast, hc⟩ := h
  refine ⟨c, ?_, hc⟩
  rw [String.toList_append, List.getLast?_append, hlast]
  rfl

/-- Lines end as the last one does. -/
theorem EndsVisibly.intercalate {last : String} (h : EndsVisibly last) (lines : List String) :
    EndsVisibly ("\n".intercalate (lines ++ [last])) := by
  obtain ⟨c, hlast, hc⟩ := h
  refine ⟨c, ?_, hc⟩
  rw [toList_intercalate_newline, List.getLast?_append, hlast]
  rfl

namespace Command

/-- **A text that ends visibly is printed as it is**, with a line feed after it. -/
theorem trimmedLines_of_endsVisibly {text : String} (h : EndsVisibly text) :
    trimmedLines text = text ++ "\n" := by
  obtain ⟨c, hlast, hc⟩ := h
  have hstop : StopsAt isBlank text.toList.reverse := by
    intro d hd
    rw [List.head?_reverse, hlast] at hd
    rw [← Option.some.inj hd]
    exact hc
  unfold trimmedLines
  rw [trimEnd, dropWhile_eq_self_of_stopsAt hstop, List.reverse_reverse, String.ofList_toList]

/-- A line feed at the end of a text is taken off and put back. -/
theorem trimmedLines_append_newline (text : String) :
    trimmedLines (text ++ "\n") = trimmedLines text := by
  have htext : (text ++ "\n").toList = text.toList ++ ['\n'] := by
    rw [String.toList_append]
    rfl
  unfold trimmedLines
  rw [htext, trimEnd_append_blank isBlank_newline]

end Command

/-! ## The end of code -/

theorem endsVisibly_append_semicolon {text : String} (h : EndsVisibly text) (settings : Settings) :
    EndsVisibly (text ++ settings.semicolon) := by
  unfold Settings.semicolon
  split
  · exact EndsVisibly.append_left ⟨';', rfl, by decide⟩ text
  · rwa [String.append_empty]

theorem endsVisibly_declaration (schema : Schema) (settings : Settings) :
    EndsVisibly (TypeScript.declaration schema settings) := by
  have hbrace : EndsVisibly "\x7d" := ⟨'\x7d', rfl, by decide⟩
  have hangle : EndsVisibly ">" := ⟨'>', rfl, by decide⟩
  have hclose : ∀ asInterface, EndsVisibly (TypeScript.closeLine settings asInterface) := by
    intro asInterface
    unfold TypeScript.closeLine
    split
    · exact hbrace
    · exact endsVisibly_append_semicolon hbrace settings
  unfold TypeScript.declaration
  split
  · unfold TypeScript.inferred
    exact (endsVisibly_append_semicolon (hangle.append_left _) settings).intercalate _
  · exact (hclose true).intercalate _
  · exact (hclose false).intercalate _

/-- **The code of a module ends visibly.** -/
theorem endsVisibly_validatorAndType (schema : Schema) (settings : Settings) :
    EndsVisibly (SourceUnit.validatorAndType schema settings) :=
  (endsVisibly_declaration schema settings).append_left _

end SchemaForge
