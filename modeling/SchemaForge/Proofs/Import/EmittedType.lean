import SchemaForge.Proofs.Import.TypeText
import SchemaForge.Proofs.Text.Lines
import SchemaForge.TypeScript.Import.Item
import SchemaForge.TypeScript.Ty

/-!
# `Proofs.Import.EmittedType` — the text of a static type, read back

The text of a field's type is a union: its literals or its one word, and null if the field allows it.
When every literal can stand between quotes as it is, the text has no character that would end it, no
comment is cut off it, and reading it gives back what the type says about the field.

## Contents
- **What comes back.** `Rules.recovered`, the part of a rule record that its static type shows.
- **Members.** `typeMembers` and `toList_text_ofField`; `IsTypeMember` says what a member needs.
- **Reading.** `withoutComment_type`, `allowsNull_type` and `rulesOfType_type`.
-/

namespace SchemaForge

/-- The part of a rule record that its static type shows. Without literals, and for the elements of a
    collection that are not primitive, only text is left. -/
def Rules.recovered : Rules → Rules
  | .string _      => .empty .string
  | .number _      => .empty .number
  | .boolean       => .empty .boolean
  | .date _        => .empty .date
  | .enum rules    => if rules.values = [] then .empty .string else .oneOf rules.values
  | .array rules _ => .arrayOf (if rules.item.isPrimitive then rules.item else .string)

/-- A value that is written between quotes as it is and does not end the text of a type. -/
structure IsPlainValue (value : String) : Prop where
  ne_empty : value ≠ ""
  plain : ∀ c ∈ value.toList, c ∉ ['\'', '"', '\\', '|', ';', ',', '\n', '\x7d']

/-- Every literal of a rule record is a plain value. -/
def Rules.HasPlainValues : Rules → Prop
  | .enum rules => ∀ value ∈ rules.values, IsPlainValue value
  | _           => True

end SchemaForge

namespace SchemaForge.TypeScript.Import

open Text

/-! ## The members of a type -/

/-- The members of the type of a rule record: its literals, or its one word. -/
def baseMembers : Rules → List (List Char)
  | .enum rules =>
    if rules.values = [] then ["never".toList] else (rules.values.map String.toList).map literal
  | rules       => [(Ty.ofRules rules).text.toList]

/-- The members of the type of a field. -/
def typeMembers (field : Field) : List (List Char) :=
  baseMembers field.rules ++ if field.nullable then [nullWord] else []

theorem escape_of_isVerbatim {value : List Char} (h : IsVerbatim value) :
    Quoted.escape value = value := by
  induction value with
  | nil => rfl
  | cons c value ih =>
      obtain ⟨hsingle, -, hback⟩ := h c (by simp)
      rw [Quoted.escape, if_neg (not_or.mpr ⟨hback, hsingle⟩), ih fun d hd => h d (by simp [hd])]

theorem toList_quote (value : String) :
    (quote value).toList = '\'' :: (Quoted.escape value.toList ++ ['\'']) := by
  rw [quote, String.toList_ofList, List.cons_append]

theorem toList_quote_of_isVerbatim {value : String} (h : IsVerbatim value.toList) :
    (quote value).toList = literal value.toList := by
  rw [toList_quote, escape_of_isVerbatim h]
  rfl

theorem isVerbatim_of_isPlainValue {value : String} (h : IsPlainValue value) :
    IsVerbatim value.toList := by
  intro c hc
  have := h.plain c hc
  simp only [List.mem_cons, not_or] at this
  exact ⟨this.1, this.2.1, this.2.2.1⟩

/-- The text of the type of some literals is their union. -/
theorem toList_text_oneOf {values : List String} (hne : values ≠ []) :
    (Ty.ofRules (.oneOf values)).text.toList
      = unionSeparator.intercalate (values.map fun value => (quote value).toList) := by
  obtain ⟨value, values, rfl⟩ := List.exists_cons_of_ne_nil hne
  show (" | ".intercalate ((value :: values).map quote)).toList = _
  rw [String.toList_intercalate, List.map_map]
  rfl

/-- The text of a rule record's type is the union of its members. -/
theorem toList_text_ofRules {rules : Rules} (h : rules.HasPlainValues) :
    (Ty.ofRules rules).text.toList = unionSeparator.intercalate (baseMembers rules) := by
  cases rules with
  | enum rules =>
      obtain ⟨values⟩ := rules
      cases values with
      | nil => rfl
      | cons value values =>
          have hquotes : (value :: values).map (fun v => (quote v).toList)
              = ((value :: values).map String.toList).map literal := by
            rw [List.map_map]
            exact List.map_congr_left fun v hv =>
              toList_quote_of_isVerbatim (isVerbatim_of_isPlainValue (h v hv))
          exact (toList_text_oneOf (by simp)).trans (congrArg _ hquotes)
  | _ => exact List.intercalate_singleton.symm

/-- **The text of a field's type is the union of its members.** -/
theorem toList_text_ofField {field : Field} (h : field.rules.HasPlainValues) :
    (Ty.ofField field).text.toList = unionSeparator.intercalate (typeMembers field) := by
  unfold Ty.ofField typeMembers
  split
  · have hne : baseMembers field.rules ≠ [] := by
      unfold baseMembers
      split
      · split
        · simp
        · simpa using ‹_›
      · simp
    rw [Ty.text, String.toList_append, toList_text_ofRules h, intercalate_concat hne]
    rfl
  · rw [toList_text_ofRules h, List.append_nil]

/-! ## What a member of a written type needs -/

/-- No comment is cut off the text, whatever follows it. -/
def IsUncut (text : List Char) : Prop := ∀ previous rest,
  cutComment none previous (text ++ rest) = text ++ cutComment none previous rest

theorem IsUncut.append {front back : List Char} (hfront : IsUncut front) (hback : IsUncut back) :
    IsUncut (front ++ back) := by
  intro previous rest
  rw [List.append_assoc, hfront, hback, List.append_assoc]

theorem IsUncut.withoutComment_eq {text : List Char} (h : IsUncut text) :
    withoutComment text = text := by
  have hall := h '\x00' []
  rw [List.append_nil] at hall
  exact hall.trans (List.append_nil text)

theorem isUncut_unionSeparator : IsUncut unionSeparator := by
  refine fun previous rest => cutComment_plain (fun c hc => ?_) previous rest
  simp only [unionSeparator, List.mem_cons, List.not_mem_nil, or_false] at hc
  rcases hc with rfl | rfl | rfl <;> decide

/-- A member of a union that can be written as the type of a member of a declaration. -/
structure IsTypeMember (text : List Char) : Prop extends IsMember text where
  uncut : IsUncut text
  isTypeChar : ∀ c ∈ text, isTypeChar c = true
  brace_not_mem : '\x7d' ∉ text

/-- Whether a text is a word that can stand as a type. -/
def isTypeWord (text : List Char) : Bool :=
  !text.isEmpty && trim text == text
    && text.all fun c => !(['\'', '"', '/', '|', ';', ',', '\n', '\x7d'].contains c)

theorem isTypeMember_word {text : List Char} (h : isTypeWord text = true) : IsTypeMember text := by
  simp only [isTypeWord, Bool.and_eq_true, List.all_eq_true, beq_iff_eq, Bool.not_eq_true',
    List.isEmpty_eq_false_iff] at h
  obtain ⟨⟨hne, htrim⟩, hchars⟩ := h
  have outside : ∀ c ∈ text, c ∉ ['\'', '"', '/', '|', ';', ',', '\n', '\x7d'] := by
    intro c hc hmem
    have := hchars c hc
    rw [List.contains_iff_mem.mpr hmem] at this
    exact absurd this (by simp)
  exact
    { ne_nil := hne
      trimmed := isTrimmed_of_trim htrim
      bar_not_mem := fun hc => outside _ hc (by simp)
      uncut := fun previous rest => by
        refine cutComment_plain (fun c hc => ?_) previous rest
        have := outside c hc
        simp only [List.mem_cons, not_or] at this
        exact ⟨this.1, this.2.1, this.2.2.1⟩
      isTypeChar := fun c hc => by
        have := outside c hc
        simp only [List.mem_cons, not_or] at this
        simp [Import.isTypeChar, this]
      brace_not_mem := fun hc => outside _ hc (by simp) }

theorem isTypeMember_literal {value : String} (h : IsPlainValue value) :
    IsTypeMember (literal value.toList) := by
  have outside : ∀ c ∈ ['|', ';', ',', '\n', '\x7d'], c ∉ value.toList := by
    intro c hc hmem
    refine h.plain c hmem ?_
    simp only [List.mem_cons] at hc ⊢
    exact Or.inr (Or.inr (Or.inr hc))
  exact
    { toIsMember := isMember_literal (outside '|' (by simp))
      uncut := fun previous rest => cutComment_literal (isVerbatim_of_isPlainValue h) previous rest
      isTypeChar := fun c hc => by
        simp only [literal, List.mem_cons, List.mem_append, List.not_mem_nil, or_false] at hc
        rcases hc with rfl | hc | rfl
        · rfl
        · have hsemi : c ≠ ';' := fun he => outside ';' (by simp) (he ▸ hc)
          have hcomma : c ≠ ',' := fun he => outside ',' (by simp) (he ▸ hc)
          have hline : c ≠ '\n' := fun he => outside '\n' (by simp) (he ▸ hc)
          simp [Import.isTypeChar, hsemi, hcomma, hline]
        · rfl
      brace_not_mem := by simp [literal, outside '\x7d' (by simp)] }

theorem isTypeWord_element (kind : Kind) :
    isTypeWord (Ty.element kind).text.toList = true := by
  cases kind <;> decide

theorem isTypeWord_array (item : Kind) :
    isTypeWord (Ty.array (Ty.element item)).text.toList = true := by
  cases item <;> decide

theorem isTypeMember_nullWord : IsTypeMember nullWord := isTypeMember_word (by decide)

/-- Every member of a rule record's type can be written. -/
theorem isTypeMember_of_mem_baseMembers {rules : Rules} (h : rules.HasPlainValues) :
    ∀ member ∈ baseMembers rules, IsTypeMember member := by
  cases rules with
  | enum rules =>
      intro member hmem
      rw [baseMembers] at hmem
      split at hmem
      · rw [List.mem_singleton.mp hmem]
        exact isTypeMember_word (by decide)
      · rw [List.map_map] at hmem
        obtain ⟨value, hvalue, rfl⟩ := List.mem_map.mp hmem
        exact isTypeMember_literal (h value hvalue)
  | array rules items =>
      exact List.forall_mem_singleton.mpr (isTypeMember_word (isTypeWord_array rules.item))
  | string _ => exact List.forall_mem_singleton.mpr (isTypeMember_word (isTypeWord_element .string))
  | number _ => exact List.forall_mem_singleton.mpr (isTypeMember_word (isTypeWord_element .number))
  | boolean  => exact List.forall_mem_singleton.mpr (isTypeMember_word (isTypeWord_element .boolean))
  | date _   => exact List.forall_mem_singleton.mpr (isTypeMember_word (isTypeWord_element .date))

/-- **Every member of a field's type can be written.** -/
theorem isTypeMember_of_mem_typeMembers {field : Field} (h : field.rules.HasPlainValues) :
    ∀ member ∈ typeMembers field, IsTypeMember member := by
  intro member hmem
  rcases List.mem_append.mp hmem with hmem | hmem
  · exact isTypeMember_of_mem_baseMembers h member hmem
  · split at hmem
    · rw [List.mem_singleton.mp hmem]
      exact isTypeMember_nullWord
    · simp at hmem

theorem typeMembers_ne_nil (field : Field) : typeMembers field ≠ [] := by
  unfold typeMembers baseMembers
  split
  · split
    · simp
    · simp [*]
  · simp

/-! ## Reading the type of a field -/

/-- **No comment is cut off a union whose members keep theirs.** -/
theorem isUncut_intercalate {members : List (List Char)} (h : ∀ member ∈ members, IsUncut member) :
    IsUncut (unionSeparator.intercalate members) := by
  induction members with
  | nil => exact fun _ _ => cutComment_previous _ _ _
  | cons member members ih =>
      have hmember := h member List.mem_cons_self
      have hrest := ih fun m hm => h m (List.mem_cons_of_mem member hm)
      cases members with
      | nil =>
          rw [List.intercalate_singleton]
          exact hmember
      | cons next members =>
          rw [List.intercalate_cons_cons]
          exact (hmember.append isUncut_unionSeparator).append hrest

section

variable {field : Field} (h : field.rules.HasPlainValues)
include h

/-- The text of a type does not start or end with a blank, and is not empty. -/
theorem isTrimmed_type :
    IsTrimmed (Ty.ofField field).text.toList ∧ (Ty.ofField field).text.toList ≠ [] := by
  rw [toList_text_ofField h]
  exact isTrimmed_intercalate (typeMembers_ne_nil field) fun m hm =>
    have hmember := isTypeMember_of_mem_typeMembers h m hm
    ⟨hmember.trimmed, hmember.ne_nil⟩

/-- The text of a type has no character that ends it. -/
theorem isTypeChar_type : ∀ c ∈ (Ty.ofField field).text.toList, isTypeChar c = true := by
  rw [toList_text_ofField h]
  exact forall_mem_intercalate (List.all_eq_true.mp (by decide)) fun m hm =>
    (isTypeMember_of_mem_typeMembers h m hm).isTypeChar

theorem brace_not_mem_type : '\x7d' ∉ (Ty.ofField field).text.toList := by
  have hne : ∀ c ∈ (Ty.ofField field).text.toList, c ≠ '\x7d' := by
    rw [toList_text_ofField h]
    exact forall_mem_intercalate (List.all_iff_forall_prop.mp (by decide)) fun m hm c hc he =>
      (isTypeMember_of_mem_typeMembers h m hm).brace_not_mem (he ▸ hc)
  exact fun hmem => hne _ hmem rfl

/-- No comment is cut off the text of a type. -/
theorem trim_withoutComment_type :
    trim (withoutComment (Ty.ofField field).text.toList) = (Ty.ofField field).text.toList := by
  have huncut : withoutComment (Ty.ofField field).text.toList
      = (Ty.ofField field).text.toList := by
    rw [toList_text_ofField h]
    exact (isUncut_intercalate fun m hm =>
      (isTypeMember_of_mem_typeMembers h m hm).uncut).withoutComment_eq
  rw [huncut, trim_of_isTrimmed (isTrimmed_type h).1]

end

/-- No member of a rule record's type is null. -/
theorem ne_nullWord_of_mem_baseMembers {rules : Rules} :
    ∀ member ∈ baseMembers rules, member ≠ nullWord := by
  cases rules with
  | enum rules =>
      intro member hmem
      rw [baseMembers] at hmem
      split at hmem
      · rw [List.mem_singleton.mp hmem]
        decide
      · obtain ⟨value, -, rfl⟩ := List.mem_map.mp hmem
        exact literal_ne_nullWord value
  | array rules items =>
      refine List.forall_mem_singleton.mpr ?_
      show (Ty.array (Ty.element rules.item)).text.toList ≠ nullWord
      cases rules.item <;> decide
  | string _ => exact List.forall_mem_singleton.mpr (by show "string".toList ≠ nullWord; decide)
  | number _ => exact List.forall_mem_singleton.mpr (by show "number".toList ≠ nullWord; decide)
  | boolean  => exact List.forall_mem_singleton.mpr (by decide)
  | date _   => exact List.forall_mem_singleton.mpr (by show "Date".toList ≠ nullWord; decide)

/-- **Null is read exactly when the field allows it.** -/
theorem allowsNull_type {field : Field} (h : field.rules.HasPlainValues) :
    allowsNull (Ty.ofField field).text.toList = field.nullable := by
  rw [toList_text_ofField h, allowsNull_intercalate fun m hm =>
    (isTypeMember_of_mem_typeMembers h m hm).toIsMember]
  have hbase : nullWord ∉ baseMembers field.rules :=
    fun hmem => ne_nullWord_of_mem_baseMembers _ hmem rfl
  rw [Bool.eq_iff_iff, List.contains_iff_mem, typeMembers, List.mem_append]
  constructor
  · rintro (hmem | hmem)
    · exact absurd hmem hbase
    · split at hmem
      · assumption
      · simp at hmem
  · intro hnull
    rw [if_pos hnull]
    exact Or.inr (by simp)

/-- Without null, the members of a rule record's type say what its kind, literals and elements are. -/
theorem rulesOfUnion_baseMembers {rules : Rules} (h : rules.HasPlainValues) :
    rulesOfUnion (unionSeparator.intercalate (baseMembers rules)) = rules.recovered := by
  cases rules with
  | enum rules =>
      rw [baseMembers, Rules.recovered]
      split
      · rfl
      · rename_i hne
        have hplain : ∀ value ∈ rules.values.map String.toList,
            ∃ v, IsPlainValue v ∧ v.toList = value := by
          intro value hvalue
          obtain ⟨v, hv, he⟩ := List.mem_map.mp hvalue
          exact ⟨v, h v hv, he⟩
        have hvalues : rulesOfUnion (unionSeparator.intercalate
            ((rules.values.map String.toList).map literal))
            = .oneOf ((rules.values.map String.toList).map String.ofList) :=
          rulesOfUnion_literals (by simpa using hne)
          (fun value hv => by
            obtain ⟨v, hplain, rfl⟩ := hplain value hv
            exact fun he => hplain.ne_empty (String.toList_eq_nil_iff.mp he))
          (fun value hv => by
            obtain ⟨v, hplain, rfl⟩ := hplain value hv
            exact fun hmem => hplain.plain '|' hmem (by simp))
          (fun value hv => by
            obtain ⟨v, hplain, rfl⟩ := hplain value hv
            exact isVerbatim_of_isPlainValue hplain)
        rw [hvalues, List.map_map]
        exact congrArg Rules.oneOf ((List.map_congr_left fun v _ => String.ofList_toList).trans
          (List.map_id _))
  | array rules items =>
      rw [baseMembers, List.intercalate_singleton, Rules.recovered]
      · show rulesOfUnion (Ty.array (Ty.element rules.item)).text.toList = _
        cases rules.item <;> rfl
      · simp
  | string _ => show rulesOfUnion (unionSeparator.intercalate ["string".toList]) = _; rfl
  | number _ => show rulesOfUnion (unionSeparator.intercalate ["number".toList]) = _; rfl
  | boolean  => rfl
  | date _   => show rulesOfUnion (unionSeparator.intercalate ["Date".toList]) = _; rfl

/-- **The rules read from a type are those that it shows.** -/
theorem rulesOfType_type {field : Field} (h : field.rules.HasPlainValues) :
    rulesOfType (Ty.ofField field).text.toList = field.rules.recovered := by
  rw [toList_text_ofField h, rulesOfType_intercalate fun m hm =>
    (isTypeMember_of_mem_typeMembers h m hm).toIsMember]
  have hfilter : (typeMembers field).filter (fun m => m ≠ nullWord) = baseMembers field.rules := by
    have hbase : (baseMembers field.rules).filter (fun m => decide (m ≠ nullWord))
        = baseMembers field.rules :=
      List.filter_eq_self.mpr fun m hm => decide_eq_true (ne_nullWord_of_mem_baseMembers m hm)
    have hnull : (if field.nullable then [nullWord] else []).filter
        (fun m => decide (m ≠ nullWord)) = [] := by
      split <;> rfl
    rw [typeMembers, List.filter_append, hbase, hnull, List.append_nil]
  rw [hfilter, rulesOfUnion_baseMembers h]

end SchemaForge.TypeScript.Import
