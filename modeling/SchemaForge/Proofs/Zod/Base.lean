import SchemaForge.Proofs.Zod.Literal

/-!
# `Proofs.Zod.Base` — base constructors are told from what follows them

The text of a base constructor determines the constructor and where it ends. An enumeration ends
behind its last literal, and a collection behind its element, by recursion.

## Contents
- **Lists of literals.** `literals_append_inj`.
- **Base constructors.** `Base.text_append_inj`.
- **Kinds.** `sameBase_of_base_eq`: what the base constructor tells of a rule record.
-/

namespace SchemaForge.Zod

/-! ## Lists of literals -/

/-- The literals after the first, each behind a comma and a blank. -/
def laterLiterals (values : List String) : List Char :=
  values.flatMap fun value => ',' :: ' ' :: (quote value).toList

theorem toList_literals (value : String) (values : List String) :
    (", ".intercalate ((value :: values).map quote)).toList
      = (quote value).toList ++ laterLiterals values := by
  induction values generalizing value with
  | nil => simp [laterLiterals]
  | cons next values ih =>
      have hne : (next :: values).map quote ≠ [] := by simp
      rw [List.map_cons, String.intercalate_cons_of_ne_nil hne, String.toList_append,
        String.toList_append, ih next]
      simp [laterLiterals]

theorem laterLiterals_append_inj {values values' : List String} {rest rest' : List Char}
    (h : laterLiterals values ++ ']' :: rest = laterLiterals values' ++ ']' :: rest') :
    values = values' ∧ rest = rest' := by
  induction values generalizing values' with
  | nil =>
      cases values' with
      | nil => exact ⟨rfl, (List.cons.inj h).2⟩
      | cons value' values' => exact absurd (List.cons.inj h).1 (by decide)
  | cons value values ih =>
      cases values' with
      | nil => exact absurd (List.cons.inj h).1 (by decide)
      | cons value' values' =>
          unfold laterLiterals at h ih
          rw [List.flatMap_cons, List.flatMap_cons, List.cons_append, List.cons_append,
            List.cons_append, List.cons_append, List.append_assoc, List.append_assoc] at h
          have htail := (List.cons.inj (List.cons.inj h).2).2
          obtain ⟨rfl, hmore⟩ := quote_append_inj htail
          obtain ⟨rfl, rfl⟩ := ih hmore
          exact ⟨rfl, rfl⟩

theorem literals_append_inj {values values' : List String} {rest rest' : List Char}
    (h : (", ".intercalate (values.map quote)).toList ++ ']' :: rest
      = (", ".intercalate (values'.map quote)).toList ++ ']' :: rest') :
    values = values' ∧ rest = rest' := by
  cases values with
  | nil =>
      cases values' with
      | nil => exact ⟨rfl, by simpa using h⟩
      | cons value' values' =>
          rw [toList_literals, List.append_assoc, toList_quote_append] at h
          exact absurd (List.cons.inj h).1 (by decide)
  | cons value values =>
      cases values' with
      | nil =>
          rw [toList_literals, List.append_assoc, toList_quote_append] at h
          exact absurd (List.cons.inj h).1 (by decide)
      | cons value' values' =>
          rw [toList_literals, toList_literals, List.append_assoc, List.append_assoc] at h
          obtain ⟨rfl, hmore⟩ := quote_append_inj h
          obtain ⟨rfl, rfl⟩ := laterLiterals_append_inj hmore
          exact ⟨rfl, rfl⟩

/-! ## Base constructors -/

/-- **A base constructor is told from what follows it.** -/
theorem Base.text_append_inj {base base' : Base} {rest rest' : List Char}
    (h : base.text.toList ++ rest = base'.text.toList ++ rest') : base = base' ∧ rest = rest' := by
  induction base generalizing base' rest rest' with
  | array element ih =>
      cases base' with
      | array element' =>
          have hinner : element.text.toList ++ ')' :: rest = element'.text.toList ++ ')' :: rest' := by
            simpa [Base.text] using h
          obtain ⟨rfl, hrest⟩ := ih hinner
          exact ⟨rfl, (List.cons.inj hrest).2⟩
      | _ => simp [Base.text] at h
  | enum values =>
      cases base' with
      | enum values' =>
          have hinner : (", ".intercalate (values.map quote)).toList ++ ']' :: ')' :: rest
              = (", ".intercalate (values'.map quote)).toList ++ ']' :: ')' :: rest' := by
            simpa [Base.text] using h
          obtain ⟨rfl, hrest⟩ := literals_append_inj hinner
          exact ⟨rfl, (List.cons.inj hrest).2⟩
      | _ => simp [Base.text] at h
  | _ => cases base' <;> simp_all [Base.text]

/-! ## Kinds -/

/-- The kind of elements that stands for all those with the same base constructor. -/
def plainItem (kind : Kind) : Kind := if kind.isPrimitive then kind else .array

theorem element_eq_iff (kind kind' : Kind) :
    Base.element kind = Base.element kind' ↔ plainItem kind = plainItem kind' := by
  cases kind <;> cases kind' <;> simp [Base.element, plainItem, Kind.isPrimitive]

/-- What the base constructor of rules tells of them. -/
def SameBase : Rules → Rules → Prop
  | .string _,      .string _       => True
  | .number _,      .number _       => True
  | .boolean,       .boolean        => True
  | .date _,        .date _         => True
  | .enum rules,    .enum rules'    => rules = rules'
  | .array rules _, .array rules' _ => plainItem rules.item = plainItem rules'.item
  | _,              _               => False

theorem oneOf_inj {values values' : List String} (h : Base.oneOf values = Base.oneOf values') :
    values = values' := by
  cases values <;> cases values' <;> simp_all [Base.oneOf]

/-- Only literals have the base constructor of literals. -/
theorem sameBase_enum {literals : EnumRules} {rules : Rules}
    (h : Base.oneOf literals.values = (ofRules rules).base) : SameBase (.enum literals) rules := by
  cases rules with
  | enum literals' => exact congrArg EnumRules.mk (oneOf_inj h)
  | _ =>
      obtain ⟨values⟩ := literals
      cases values <;> exact nomatch h

theorem SameBase.symm {rules rules' : Rules} (h : SameBase rules rules') :
    SameBase rules' rules := by
  cases rules <;> cases rules' <;> first | exact trivial | exact h | exact Eq.symm h

/-- **Rules with the same base constructor have the same kind**, literals and elements. -/
theorem sameBase_of_base_eq {rules rules' : Rules}
    (h : (ofRules rules).base = (ofRules rules').base) : SameBase rules rules' := by
  cases rules' with
  | enum literals => exact (sameBase_enum h.symm).symm
  | array array' item' =>
      cases rules with
      | enum literals => exact sameBase_enum h
      | array array item =>
          exact (element_eq_iff _ _).mp (Base.array.inj h)
      | _ => exact nomatch h
  | _ =>
      cases rules <;> first
        | exact trivial
        | exact sameBase_enum h
        | exact nomatch h

end SchemaForge.Zod
