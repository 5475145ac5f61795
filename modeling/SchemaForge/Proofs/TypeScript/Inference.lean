import SchemaForge.TypeScript.Declaration
import SchemaForge.Proofs.Zod.Slot

/-!
# `Proofs.TypeScript.Inference` — declared members and inferred members

The type of a schema is either declared member by member or inferred from its validator. The rules
of inference give the member of a validator expression: the base constructor fixes the type, the
refinements of the base keep it, and the modifiers after them add null, make the member optional or,
with a default, make it present again. The two members of a field always have the same type. They
differ in the question mark exactly when the field has a default and need not be present.

## Contents
- **Inference.** `Member`, `Base.type`, `modify?` and `Expr.member?`.
- **Chains.** The calls of a rule record keep the type of its base constructor.
- **Fields.** `memberLines_eq`, `member?_ofField`, and `member?_eq_declared_iff` with the field in
  which the members differ.
-/

namespace SchemaForge.Zod

open TypeScript (Ty)

/-! ## The rules of inference -/

/-- A member of an object type: whether it may be left out, and its type. -/
structure Member where
  isOptional : Bool := false
  type : Ty

/-- The type of the values that a base constructor lets through. -/
def Base.type : Base → Ty
  | string        => .string
  | number        => .number
  | boolean       => .boolean
  | date          => .date
  | unknown       => .unknown
  | never         => .never
  | enum values   => .literals values
  | array element => .array element.type

/-- What a modifier makes of a member. -/
def modify? (member : Member) (call : Call) : Option Member :=
  match call.method with
  | "nullable" => some { member with type := .nullable member.type }
  | "optional" => some { member with isOptional := true }
  | "default"  => some { member with isOptional := false }
  | _          => none

/-- The member that is inferred for an expression: the methods of its base constructor keep the type,
    and modifiers may follow them. -/
def Expr.member? (expr : Expr) : Option Member :=
  let modifiers := expr.calls.dropWhile fun call => expr.base.methods.contains call.method
  modifiers.foldlM modify? { type := expr.base.type }

/-! ## Chains -/

/-- **The type of a rule record is the type of its base constructor.** -/
theorem type_base_ofRules (rules : Rules) : (ofRules rules).base.type = Ty.ofRules rules := by
  cases rules with
  | enum rules =>
      obtain ⟨values⟩ := rules
      cases values <;> rfl
  | array rules item =>
      obtain ⟨_, _, _, _, item⟩ := rules
      cases item <;> rfl
  | _ => rfl

/-- **The calls of a rule record keep the type of its base constructor.** -/
theorem isMethod_of_mem_calls {rules : Rules} {call : Call} (h : call ∈ (ofRules rules).calls) :
    (ofRules rules).base.methods.contains call.method = true := by
  rw [calls_ofRules] at h
  rw [List.contains_iff_mem, ← methods_slotsOf]
  exact method_mem_of_mem_callsOf h

/-- No base constructor has a modifier as its method. -/
theorem not_isMethod_of_mem_modifiers (base : Base) {field : Field} {call : Call}
    (h : call ∈ modifiers field) : base.methods.contains call.method = false := by
  have hmethod : call.method ∈ ["nullable", "optional", "default"] := by
    rw [modifiers_eq] at h
    exact method_mem_of_mem_callsOf h
  simp only [List.mem_cons, List.not_mem_nil, or_false] at hmethod
  rcases hmethod with heq | heq | heq <;> rw [heq] <;> cases base <;> rfl

/-! ## Fields -/

/-- The member that the type of a schema declares for a field. -/
def Member.declared (field : Field) : Member where
  isOptional := !field.required
  type := Ty.ofField field

/-- The line of a member with its name. -/
def Member.line (member : Member) (settings : Settings) (name : String) : String :=
  "  " ++ name ++ (if member.isOptional then "?" else "") ++ ": " ++ member.type.text
    ++ settings.semicolon

/-- The line that is emitted for a field is that of its declared member. -/
theorem memberLines_eq (settings : Settings) (field : Field) :
    TypeScript.memberLines settings field
      = Comment.member? (settings.fieldDoc field)
        ++ [(Member.declared field).line settings field.name] := by
  unfold TypeScript.memberLines Member.line Member.declared
  cases field.required <;> rfl

theorem member?_modifiers (field : Field) (type : Ty) :
    (modifiers field).foldlM modify? { type }
      = some { isOptional := !field.required && field.defaultText.isNone
               type := if field.nullable then .nullable type else type } := by
  unfold modifiers texted Field.defaultText
  cases field.nullable <;> cases field.required <;> cases nonempty? field.defaultValue <;> rfl

/-- The member that is inferred for a field: a default makes it present. -/
theorem member?_ofField (field : Field) :
    (ofField field).member?
      = some { isOptional := !field.required && field.defaultText.isNone
               type := Ty.ofField field } := by
  have hmodifiers : (ofField field).calls.dropWhile
      (fun call => (ofField field).base.methods.contains call.method) = modifiers field := by
    unfold ofField
    dsimp only
    rw [List.dropWhile_append_of_pos fun call hcall => isMethod_of_mem_calls hcall]
    cases h : modifiers field with
    | nil => rfl
    | cons call calls =>
        rw [List.dropWhile_cons_of_neg]
        rw [not_isMethod_of_mem_modifiers _ (by rw [h]; exact List.mem_cons_self)]
        exact Bool.false_ne_true
  unfold Expr.member?
  dsimp only
  have hbase : (ofField field).base = (ofRules field.rules).base := rfl
  rw [hmodifiers, member?_modifiers, hbase, type_base_ofRules, Ty.ofField]

/-- **The inferred member and the declared member of a field have the same type**, and they are the
    same member exactly when the field is required or has no default: an optional field with a
    default is declared with a question mark and inferred without one. The declared member is the one
    that is emitted. -/
theorem member?_eq_declared_iff (field : Field) :
    (∀ settings, TypeScript.memberLines settings field
        = Comment.member? (settings.fieldDoc field)
          ++ [(Member.declared field).line settings field.name]) ∧
      (∃ member, (ofField field).member? = some member ∧
        member.type = (Member.declared field).type) ∧
      ((ofField field).member? = some (Member.declared field) ↔
        field.required = true ∨ field.defaultText = none) := by
  rw [member?_ofField]
  refine ⟨fun settings => memberLines_eq settings field, ⟨_, rfl, rfl⟩, ?_⟩
  unfold Member.declared
  rw [Option.some.injEq, Member.mk.injEq]
  cases field.required <;> cases field.defaultText <;> simp

/-- A field that need not be present, with a default. -/
def guestRole : Field where
  name := "role"
  required := false
  defaultValue := some "guest"
  rules := .string {}

/-- Its declared member has a question mark, which the inferred member does not have. -/
theorem member?_ne_declared_guestRole :
    (ofField guestRole).text = "z.string().optional().default('guest')" ∧
      (ofField guestRole).member? = some { isOptional := false, type := .string } ∧
      TypeScript.memberLines {} guestRole = ["  role?: string;"] ∧
      (ofField guestRole).member? ≠ some (Member.declared guestRole) := by
  refine ⟨by decide, rfl, by decide, fun h => ?_⟩
  have hmark : false = true := congrArg Member.isOptional (Option.some.inj h)
  exact Bool.false_ne_true hmark

end SchemaForge.Zod
