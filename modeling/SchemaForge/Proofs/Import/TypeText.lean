import SchemaForge.Proofs.Text.Run
import SchemaForge.Proofs.Text.Split
import SchemaForge.TypeScript.Import.TypeText

/-!
# `Proofs.Import.TypeText` — reading a union back from its text

A union is written as its members with a bar between blanks. Reading splits at the bars and trims, so
members without bars and without blanks at their ends come back as they were, null among them or not.
A comment is cut off only outside of literals.

## Contents
- **Splitting.** `map_trim_split_intercalate`, at the bars of a union.
- **Unions.** `unionMembers_intercalate` and `isMember_of_mem_unionMembers`.
- **Comments.** `cutComment_plain` and `cutComment_literal`.
- **Literals.** `literal`, a text between quotes, and `rulesOfUnion_literals`.
-/

namespace SchemaForge.TypeScript.Import

open Text

/-! ## Splitting -/

/-- A blank at the front of a text goes to its first piece, where trimming takes it away. -/
theorem map_trim_split_blank {separator blank : Char} (hblank : isBlank blank = true)
    (hne : blank ≠ separator) (text : List Char) :
    (split separator (blank :: text)).map trim = (split separator text).map trim := by
  rw [split, if_neg hne]
  cases hsplit : split separator text with
  | nil => exact absurd hsplit (split_ne_nil separator text)
  | cons piece pieces =>
      show trim (blank :: piece) :: _ = trim piece :: _
      rw [trim, trimStart_blank hblank, ← trim]

/-- What stands between two members of a written union. -/
def unionSeparator : List Char := [' ', '|', ' ']

/-- A text that can be a member of a union: not empty, without a bar, without blanks at its ends. -/
structure IsMember (text : List Char) : Prop where
  ne_nil : text ≠ []
  trimmed : IsTrimmed text
  bar_not_mem : '|' ∉ text

/-- **Splitting and trimming undo writing a union.** -/
theorem map_trim_split_intercalate {members : List (List Char)} (hne : members ≠ [])
    (h : ∀ member ∈ members, IsMember member) :
    (split '|' (unionSeparator.intercalate members)).map trim = members := by
  induction members with
  | nil => exact absurd rfl hne
  | cons member members ih =>
      have hmember := h member (by simp)
      cases members with
      | nil =>
          rw [List.intercalate_singleton, split_of_not_mem hmember.bar_not_mem, List.map_singleton,
            trim_of_isTrimmed hmember.trimmed]
      | cons next members =>
          have hbar : '|' ∉ member ++ [' '] := by
            rw [List.mem_append, not_or]
            exact ⟨hmember.bar_not_mem, by decide⟩
          -- the first blank of a separator stays with the member before it, the last one with the rest
          have htext : unionSeparator.intercalate (member :: next :: members)
              = (member ++ [' ']) ++ '|' :: ' ' :: unionSeparator.intercalate (next :: members) := by
            rw [List.intercalate_cons_cons]
            simp [unionSeparator]
          rw [htext, split_append_separator hbar, List.map_cons,
            map_trim_split_blank isBlank_space (by decide), ih (by simp) fun m hm => h m (by simp [hm]),
            trim_append_blank hmember.ne_nil hmember.trimmed isBlank_space]

/-! ## Unions -/

/-- **A written union is read as its members.** -/
theorem unionMembers_intercalate {members : List (List Char)}
    (h : ∀ member ∈ members, IsMember member) :
    unionMembers (unionSeparator.intercalate members) = members := by
  cases members with
  | nil => rfl
  | cons member members =>
      rw [unionMembers, map_trim_split_intercalate (by simp) h, List.filter_eq_self]
      exact fun m hm => decide_eq_true (h m hm).ne_nil

/-- **The members of a union, whatever its text, can be written.** -/
theorem isMember_of_mem_unionMembers {text member : List Char} (h : member ∈ unionMembers text) :
    IsMember member ∧ member <:+: text := by
  obtain ⟨hmember, hne⟩ := List.mem_filter.mp h
  obtain ⟨piece, hpiece, rfl⟩ := List.mem_map.mp hmember
  obtain ⟨hwithin, hbar⟩ := infix_of_mem_split hpiece
  exact ⟨⟨of_decide_eq_true hne, isTrimmed_trim piece,
    fun hmem => hbar ((isInfix_trim piece).subset hmem)⟩, (isInfix_trim piece).trans hwithin⟩

/-- Null among the members of a written union allows null. -/
theorem allowsNull_intercalate {members : List (List Char)}
    (h : ∀ member ∈ members, IsMember member) :
    allowsNull (unionSeparator.intercalate members) = members.contains nullWord := by
  rw [allowsNull, unionMembers_intercalate h]

/-- Null among the members of a written union changes nothing else. -/
theorem rulesOfType_intercalate {members : List (List Char)}
    (h : ∀ member ∈ members, IsMember member) :
    rulesOfType (unionSeparator.intercalate members)
      = rulesOfUnion (unionSeparator.intercalate (members.filter fun m => m ≠ nullWord)) := by
  rw [rulesOfType, unionMembers_intercalate h]
  rfl

/-! ## Comments -/

/-- A text in which neither a literal nor a comment can start. -/
def IsPlain (text : List Char) : Prop := ∀ c ∈ text, c ≠ '\'' ∧ c ≠ '"' ∧ c ≠ '/'

/-- Outside of literals the character before does not matter. -/
theorem cutComment_previous (previous previous' : Char) (text : List Char) :
    cutComment none previous text = cutComment none previous' text := by
  cases text <;> rfl

theorem cutComment_plain {text : List Char} (h : IsPlain text) (previous : Char)
    (rest : List Char) :
    cutComment none previous (text ++ rest) = text ++ cutComment none previous rest := by
  induction text generalizing previous with
  | nil => rfl
  | cons c text ih =>
      obtain ⟨hsingle, hdouble, hslash⟩ := h c (by simp)
      have hquote : ¬ (c = '\'' ∨ c = '"') := not_or.mpr ⟨hsingle, hdouble⟩
      rw [List.cons_append, cutComment,
        if_neg hquote, if_neg fun hcut => hslash hcut.1, ih fun d hd => h d (by simp [hd]),
        cutComment_previous c previous, List.cons_append]

/-- A value that can stand between quotes as it is: without quotes and backslashes. -/
def IsVerbatim (value : List Char) : Prop := ∀ c ∈ value, c ≠ '\'' ∧ c ≠ '"' ∧ c ≠ '\\'

/-- A value between single quotes. -/
def literal (value : List Char) : List Char := '\'' :: (value ++ ['\''])

theorem cutComment_inside {value : List Char} (h : IsVerbatim value) {previous : Char}
    (hprevious : previous ≠ '\\') (rest : List Char) :
    cutComment (some '\'') previous (value ++ '\'' :: rest)
      = value ++ '\'' :: cutComment none '\'' rest := by
  induction value generalizing previous with
  | nil =>
      rw [List.nil_append, List.nil_append, cutComment,
        if_pos ⟨rfl, hprevious⟩]
  | cons c value ih =>
      obtain ⟨hsingle, hdouble, hback⟩ := h c (by simp)
      rw [List.cons_append, cutComment,
        if_neg fun hclose => hsingle hclose.1, ih (fun d hd => h d (by simp [hd])) hback,
        List.cons_append]

/-- Nothing is cut off inside of a literal. -/
theorem cutComment_literal {value : List Char} (h : IsVerbatim value) (previous : Char)
    (rest : List Char) :
    cutComment none previous (literal value ++ rest)
      = literal value ++ cutComment none previous rest := by
  have htext : literal value ++ rest = '\'' :: (value ++ '\'' :: rest) := by simp [literal]
  rw [htext, cutComment,
    if_pos (Or.inl rfl), cutComment_inside h (by decide), cutComment_previous '\'' previous]
  simp [literal]

/-! ## Literals -/

theorem isMember_literal {value : List Char} (h : '|' ∉ value) : IsMember (literal value) where
  ne_nil := by simp [literal]
  trimmed := by
    refine ⟨stopsAt_cons (by decide), fun c hc => ?_⟩
    have : c = '\'' := by simpa [literal, List.getLast?_cons] using hc.symm
    rw [this]
    decide
  bar_not_mem := by simp [literal, h]

theorem filter_isQuote_literal {value : List Char} (h : IsVerbatim value) :
    (literal value).filter (fun c => !isQuote c) = value := by
  have hvalue : value.filter (fun c => !isQuote c) = value := by
    rw [List.filter_eq_self]
    intro c hc
    obtain ⟨hsingle, hdouble, -⟩ := h c hc
    simp [isQuote, hsingle, hdouble]
  rw [literal, List.filter_cons, List.filter_append, hvalue]
  simp [isQuote]

/-- The members of a written union come back without their quotes. -/
theorem map_filter_isQuote_intercalate {members : List (List Char)} (hne : members ≠ [])
    (h : ∀ member ∈ members, IsMember member) :
    (split '|' (unionSeparator.intercalate members)).map
        (fun member => (trim member).filter fun c => !isQuote c)
      = members.map fun member => member.filter fun c => !isQuote c :=
  calc (split '|' (unionSeparator.intercalate members)).map
        (fun member => (trim member).filter fun c => !isQuote c)
      = ((split '|' (unionSeparator.intercalate members)).map trim).map
          (fun member => member.filter fun c => !isQuote c) := by rw [List.map_map]; rfl
    _ = members.map fun member => member.filter fun c => !isQuote c := by
        rw [map_trim_split_intercalate hne h]

/-- A literal is not the word that allows null. -/
theorem literal_ne_nullWord (value : List Char) : literal value ≠ nullWord := by
  simp [literal, nullWord]

theorem getLast?_intercalate_literal {values : List (List Char)} (hne : values ≠ []) :
    (unionSeparator.intercalate (values.map literal)).getLast? = some '\'' := by
  induction values with
  | nil => exact absurd rfl hne
  | cons value values ih =>
      cases values with
      | nil => simp [literal, List.getLast?_cons]
      | cons next values =>
          have hrest := ih (by simp)
          have hrest_ne : unionSeparator.intercalate ((next :: values).map literal) ≠ [] := by
            intro he
            rw [he] at hrest
            simp at hrest
          rw [List.map_cons, List.map_cons, List.intercalate_cons_cons, ← List.map_cons,
            getLast?_append_right hrest_ne, hrest]

/-- Only a text that ends with a bracket is a collection. -/
theorem beforeBrackets?_eq_none {text : List Char} {c : Char} (h : text.getLast? = some c)
    (hc : c ≠ ']') : beforeBrackets? text = none := by
  rw [← List.head?_reverse] at h
  unfold beforeBrackets?
  split
  · rename_i heq
    rw [heq] at h
    exact absurd (Option.some.inj h).symm hc
  · rfl

/-- **A union of literals is read as the list of its values.** -/
theorem rulesOfUnion_literals {values : List (List Char)} (hne : values ≠ [])
    (hvalue_ne : ∀ value ∈ values, value ≠ []) (hbar : ∀ value ∈ values, '|' ∉ value)
    (hverbatim : ∀ value ∈ values, IsVerbatim value) :
    rulesOfUnion (unionSeparator.intercalate (values.map literal))
      = .oneOf (values.map String.ofList) := by
  have hlast := getLast?_intercalate_literal hne
  have hquote : (unionSeparator.intercalate (values.map literal)).any isQuote = true :=
    List.any_eq_true.mpr ⟨'\'', List.mem_of_getLast? hlast, rfl⟩
  have hsplit : (split '|' (unionSeparator.intercalate (values.map literal))).map
      (fun member => (trim member).filter fun c => !isQuote c) = values := by
    have hmembers : ∀ member ∈ values.map literal, IsMember member := by
      intro member hm
      obtain ⟨value, hv, rfl⟩ := List.mem_map.mp hm
      exact isMember_literal (hbar value hv)
    rw [map_filter_isQuote_intercalate (by simpa using hne) hmembers, List.map_map]
    calc values.map ((fun member => member.filter fun c => !isQuote c) ∘ literal)
        = values.map id :=
          List.map_congr_left fun value hv => filter_isQuote_literal (hverbatim value hv)
      _ = values := List.map_id values
  have hfilter : values.filter (fun value => value ≠ []) = values := by
    rw [List.filter_eq_self]
    exact fun value hv => decide_eq_true (hvalue_ne value hv)
  have hliterals : literals? (unionSeparator.intercalate (values.map literal))
      = some (values.map String.ofList) := by
    unfold literals?
    rw [if_pos hquote]
    dsimp only
    rw [hsplit, hfilter]
    cases values with
    | nil => exact absurd rfl hne
    | cons value values => rfl
  unfold rulesOfUnion
  -- a quote stands at the end, so there are no brackets
  rw [beforeBrackets?_eq_none hlast (by decide)]
  dsimp only
  rw [hliterals]

end SchemaForge.TypeScript.Import
