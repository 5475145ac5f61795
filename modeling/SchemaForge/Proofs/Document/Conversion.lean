import SchemaForge.Backend
import SchemaForge.Proofs.Document.Object
import SchemaForge.Proofs.Json.RoundTrip

/-!
# `Proofs.Document.Conversion` — a schema through several formats

What a format makes of a tree is a text, and what it reads back may show how the text was written: a
scalar without quotes keeps its characters beside its meaning. Such a node represents the tree. Every
place of a schema document reads of it what it reads of the tree itself, so a schema comes back from any
format whose text layer reads back the tree it wrote, and from any sequence of such formats.

## Contents
- **Representations.** `Node.represents`, and `HasMeaning`, a node that stands for a scalar.
- **Places.** `Role.keeps_of_represents`.
- **Formats.** `Format.ReadsBack`, the text layer, and `Format.parse_render`.
- **Conversions.** `Format.convert?`, and `Format.convert?_eq_some`.
-/

namespace SchemaForge

open Document

/-! ## Representations -/

namespace Document

/-- The scalar that a value is, if it is one. -/
def Value.scalar? : Value → Option Scalar
  | .null        => some .null
  | .bool value  => some (.bool value)
  | .int value   => some (.int value)
  | .float value => some (.float value)
  | .text value  => some (.text value)
  | .list _      => none
  | .table _     => none

namespace Node

/-- Whether characters may stand for a scalar: those of a text are the text. -/
def isWrittenAs (raw : String) : Scalar → Bool
  | .text text => raw == text
  | _          => true

/-- Whether a node is what a scalar is read back as. A written scalar has its meaning in both modes,
    and a written text has its characters. -/
def representsScalar (value : Value) : Node → Bool
  | .scalar meaning              => value.scalar? == some meaning
  | .written raw direct buffered =>
    value.scalar? == some direct && value.scalar? == some buffered && isWrittenAs raw direct
  | _                            => false

mutual

/-- Whether a node is what a value is read back as, item by item and entry by entry. -/
def represents : Value → Node → Bool
  | .list items,    .list nodes  => representsItems items nodes
  | .table entries, .table nodes => representsEntries entries nodes
  | value,          node         => representsScalar value node

def representsItems : List Value → List Node → Bool
  | [],            []            => true
  | item :: items, node :: nodes => represents item node && representsItems items nodes
  | _,             _             => false

def representsEntries : List (String × Value) → List (Node × Node) → Bool
  | [],                      []                   => true
  | (key, value) :: entries, (name, node) :: nodes =>
    representsScalar (.text key) name && represents value node && representsEntries entries nodes
  | _,                       _                    => false

end

end Node

end Document

/-- The node has the meaning of a scalar in both modes, and is the text if the scalar is one. -/
structure HasMeaning (scalar : Scalar) (node : Node) : Prop where
  meaning : ∀ mode, node.meaning? mode = some scalar
  text : ∀ text, scalar = .text text → ∀ mode, node.text? mode = some text
  isReadable : node.isReadable = (scalar != .unreadable)

namespace HasMeaning

theorem of_scalar (scalar : Scalar) : HasMeaning scalar (.scalar scalar) where
  meaning mode := by cases mode <;> rfl
  text := by
    rintro text rfl mode
    cases mode <;> rfl
  isReadable := rfl

theorem of_written {raw : String} {scalar : Scalar} (h : Node.isWrittenAs raw scalar = true) :
    HasMeaning scalar (.written raw scalar scalar) where
  meaning mode := by cases mode <;> rfl
  text := by
    rintro text rfl mode
    obtain rfl : raw = text := by simpa [Node.isWrittenAs] using h
    cases mode <;> rfl
  isReadable := rfl

variable {scalar : Scalar} {node : Node} (h : HasMeaning scalar node)
include h

/-- A kind is named by a text. -/
theorem kind_eq : Kind.ofNode? .buffered node = (node.text? .buffered).bind Kind.ofName? := by
  cases node with
  | scalar _      => rfl
  | written _ _ _ => rfl
  | list _        => exact nomatch h.meaning .direct
  | table _       => exact nomatch h.meaning .direct

theorem isEmptyPayload_eq : isEmptyPayload .buffered node = node.isNull .buffered := by
  cases node with
  | scalar _      => rfl
  | written _ _ _ => rfl
  | list _        => exact nomatch h.meaning .direct
  | table _       => exact nomatch h.meaning .direct

/-- A scalar is kept in every place by every node that has its meaning. -/
theorem keeps (role : Role) : role.Keeps (.scalar scalar) node := by
  have hown := of_scalar scalar
  have hnull : ∀ mode, Node.isNull mode (.scalar scalar) = node.isNull mode := by
    intro mode
    rw [Node.isNull, Node.isNull, hown.meaning, h.meaning]
  have hread : Node.isReadable (.scalar scalar) = true → node.isReadable = true := by
    rw [hown.isReadable, h.isReadable]
    exact id
  have htext : ∀ mode, SchemaForge.Keeps (Node.text? mode (.scalar scalar)) (node.text? mode) := by
    intro mode text hscalar
    refine h.text text ?_ mode
    cases scalar with
    | text _ => cases mode <;> exact congrArg _ (Option.some.inj hscalar)
    | _      => cases mode <;> cases hscalar
  cases role with
  | schema   => exact SchemaForge.Keeps.none_left _
  | fields   => exact SchemaForge.Keeps.none_left _
  | field    => exact SchemaForge.Keeps.none_left _
  | record _ =>
      refine ⟨fun known _ => ?_, hread⟩
      cases known <;> exact SchemaForge.Keeps.none_left _
  | rules    =>
      refine ⟨?_, hnull _, hread⟩
      rw [Rules.ofNode?_eq]
      exact SchemaForge.Keeps.none_left _
  | plain    =>
      exact {
        meaning := fun mode => (hown.meaning mode).trans (h.meaning mode).symm
        text := htext
        texts := SchemaForge.Keeps.none_left _
        kind := by
          rw [hown.kind_eq, h.kind_eq]
          exact (htext .buffered).bind fun _ _ => .refl _
        payload := by
          rw [hown.isEmptyPayload_eq, h.isEmptyPayload_eq, hnull]
          exact id
        isReadable := hread }

end HasMeaning

namespace Document.Node

theorem ofValue_of_scalar? {value : Value} {scalar : Scalar} (h : value.scalar? = some scalar) :
    ofValue value = .scalar scalar := by
  cases value with
  | list _  => exact nomatch h
  | table _ => exact nomatch h
  | _ =>
      obtain rfl := Option.some.inj h
      rw [ofValue]

/-- What a scalar is read back as has its meaning. -/
theorem hasMeaning_of_representsScalar {value : Value} {node : Node}
    (h : representsScalar value node = true) :
    ∃ scalar, ofValue value = .scalar scalar ∧ HasMeaning scalar node := by
  cases node with
  | list _  => exact nomatch h
  | table _ => exact nomatch h
  | scalar meaning =>
      have hscalar : value.scalar? = some meaning := by simpa [representsScalar] using h
      exact ⟨meaning, ofValue_of_scalar? hscalar, .of_scalar meaning⟩
  | written raw direct buffered =>
      rw [representsScalar, Bool.and_eq_true, Bool.and_eq_true] at h
      obtain ⟨⟨hdirect, hbuffered⟩, hraw⟩ := h
      have hdirect : value.scalar? = some direct := by simpa using hdirect
      have hbuffered : value.scalar? = some buffered := by simpa using hbuffered
      obtain rfl := Option.some.inj (hdirect.symm.trans hbuffered)
      exact ⟨direct, ofValue_of_scalar? hdirect, .of_written hraw⟩

/-- What a key is read back as is that key. -/
theorem isKey_of_representsScalar {key : String} {node : Node}
    (h : representsScalar (.text key) node = true) : IsKey node (some key) := by
  obtain ⟨scalar, hvalue, hmeaning⟩ := hasMeaning_of_representsScalar h
  obtain rfl : scalar = .text key := by
    rw [ofValue] at hvalue
    exact (Node.scalar.inj hvalue).symm
  refine ⟨fun mode names => ?_, hmeaning.text key rfl .direct, hmeaning.isReadable⟩
  unfold keyName?
  rw [hmeaning.text key rfl mode]
  rfl

end Document.Node

/-! ## Places -/

theorem Role.keeps_of_representsScalar {value : Value} {node : Node}
    (h : Node.representsScalar value node = true) (role : Role) :
    role.Keeps (Node.ofValue value) node := by
  obtain ⟨scalar, hvalue, hmeaning⟩ := Node.hasMeaning_of_representsScalar h
  rw [hvalue]
  exact hmeaning.keeps role

/-- The members of a table of values. -/
def objectOf (entries : List (String × Value)) : List (Option String × Node) :=
  entries.map fun (key, value) => (some key, Node.ofValue value)

theorem ofValue_table (entries : List (String × Value)) :
    Node.ofValue (.table entries) = .object (objectOf entries) := by
  rw [Node.ofValue, Node.ofEntries_eq_map, Node.object, objectEntries, objectOf, List.map_map]
  rfl

mutual

/-- **What a value is read back as is read in every place as the value itself.** -/
theorem Role.keeps_of_represents : (value : Value) → (node : Node) → Node.represents value node = true →
    ∀ role : Role, role.Keeps (Node.ofValue value) node
  | .list items, .list nodes, h, role => by
      rw [Node.represents] at h
      have hitems := forall₂_of_representsItems items nodes h
      rw [Node.ofValue]
      refine Role.keeps_list hitems.length_eq fun index item item' hitem hitem' => ?_
      obtain ⟨hindex, rfl⟩ := List.getElem?_eq_some_iff.mp hitem
      obtain ⟨hindex', rfl⟩ := List.getElem?_eq_some_iff.mp hitem'
      exact (List.forall₂_iff_get.mp hitems).2 index hindex hindex' _
  | .table entries, .table nodes, h, role => by
      rw [Node.represents] at h
      rw [ofValue_table]
      exact Role.keeps_object ((forall₂_of_representsEntries entries nodes h).imp fun _ _ hentry =>
        ⟨hentry.1, fun _ _ => hentry.2 _⟩)
  | .list _,  .scalar _,      h, _ => nomatch h
  | .list _,  .written _ _ _, h, _ => nomatch h
  | .list _,  .table _,       h, _ => nomatch h
  | .table _, .scalar _,      h, _ => nomatch h
  | .table _, .written _ _ _, h, _ => nomatch h
  | .table _, .list _,        h, _ => nomatch h
  | .null,    _,              h, _ => Role.keeps_of_representsScalar h _
  | .bool _,  _,              h, _ => Role.keeps_of_representsScalar h _
  | .int _,   _,              h, _ => Role.keeps_of_representsScalar h _
  | .float _, _,              h, _ => Role.keeps_of_representsScalar h _
  | .text _,  _,              h, _ => Role.keeps_of_representsScalar h _

theorem forall₂_of_representsItems : (items : List Value) → (nodes : List Node) →
    Node.representsItems items nodes = true →
    List.Forall₂ (fun item node => ∀ role : Role, role.Keeps item node) (Node.ofItems items) nodes
  | [], [], _ => .nil
  | item :: items, node :: nodes, h => by
      rw [Node.representsItems, Bool.and_eq_true] at h
      rw [Node.ofItems]
      exact .cons (Role.keeps_of_represents item node h.1) (forall₂_of_representsItems items nodes h.2)
  | [], _ :: _, h => nomatch h
  | _ :: _, [], h => nomatch h

theorem forall₂_of_representsEntries : (entries : List (String × Value)) → (nodes : List (Node × Node)) →
    Node.representsEntries entries nodes = true →
    List.Forall₂ (fun entry node => IsKey node.1 entry.1 ∧ ∀ role : Role, role.Keeps entry.2 node.2)
      (objectOf entries) nodes
  | [], [], _ => .nil
  | (key, value) :: entries, (name, node) :: nodes, h => by
      rw [Node.representsEntries, Bool.and_eq_true, Bool.and_eq_true] at h
      obtain ⟨⟨hkey, hvalue⟩, hrest⟩ := h
      exact .cons ⟨Node.isKey_of_representsScalar hkey, Role.keeps_of_represents value node hvalue⟩
        (forall₂_of_representsEntries entries nodes hrest)
  | [], _ :: _, h => nomatch h
  | _ :: _, [], h => nomatch h

end

/-! ## Formats -/

namespace Document.Format

/-- The text layer of a format reads back the tree that it wrote. -/
def ReadsBack (format : Format) (value : Value) : Prop :=
  ∃ node, format.read? (format.write value) = some node ∧ Node.represents value node = true

instance (format : Format) (value : Value) : Decidable (format.ReadsBack value) :=
  decidable_of_iff ((format.read? (format.write value)).any (Node.represents value) = true)
    (Option.any_eq_true _ _)

/-- **A schema is recovered from every format whose text layer reads back its tree.** -/
theorem parse_render {format : Format} {schema : Schema} (h : format.ReadsBack schema.toValue) :
    format.parse (format.render schema) = some schema := by
  obtain ⟨node, hread, hnode⟩ := h
  have hschema : Schema.ofNode? node = some schema :=
    Role.keeps_of_represents schema.toValue node hnode .schema schema schema.ofNode?_ofValue
  simp only [parse, render, hread, Option.bind_eq_bind, Option.bind_some]
  split
  · cases hnode
  · exact hschema

/-- The schema that is left when a schema is written in a format and read again, in each format of a
    list in turn. -/
def convert? : List Format → Schema → Option Schema
  | [],                schema => some schema
  | format :: formats, schema => (format.parse (format.render schema)).bind (convert? formats)

/-- **A schema goes through every sequence of formats unchanged**, and so does the code that is made of
    it. The text layers of YAML and TOML are assumed to read back its tree; that of JSON does, up to its
    limit of nesting, if all doubles are finite. -/
theorem convert?_eq_some {formats : List Format} {schema : Schema}
    (hjson : json ∈ formats →
      (∀ x ∈ schema.floats, x.isFinite = true) ∧ (Node.ofValue schema.toValue).height < 128)
    (hyaml : yaml ∈ formats → yaml.ReadsBack schema.toValue)
    (htoml : toml ∈ formats → toml.ReadsBack schema.toValue) :
    convert? formats schema = some schema ∧
      ∀ (backend : Backend) (settings : Settings),
        (convert? formats schema).map (fun result => backend.generate result settings)
          = some (backend.generate schema settings) := by
  have hstep : ∀ format ∈ formats, format.parse (format.render schema) = some schema := by
    intro format hformat
    cases format with
    | json =>
        obtain ⟨hfinite, hnesting⟩ := hjson hformat
        exact (Json.parse_render_json schema hnesting).2 hfinite
    | yaml => exact parse_render (hyaml hformat)
    | toml => exact parse_render (htoml hformat)
  have hconvert : convert? formats schema = some schema := by
    clear hjson hyaml htoml
    induction formats with
    | nil => rfl
    | cons format formats ih =>
        rw [convert?, hstep format List.mem_cons_self, Option.bind_some]
        exact ih fun other hother => hstep other (List.mem_cons_of_mem _ hother)
  refine ⟨hconvert, fun backend settings => ?_⟩
  rw [hconvert]
  rfl

/-- A schema whose elements have rules of their own, with a double and flags at each end of a record. -/
def series : Schema where
  name := "A"
  fields :=
    [{ name := "x", required := false,
       rules := .array { item := .number } (some (.number { min := some .zero, finite := true })) }]

theorem convert?_eq_some_series :
    yaml.ReadsBack series.toValue ∧ toml.ReadsBack series.toValue ∧
      convert? [json, yaml, toml, json] series = some series := by
  have hyaml : yaml.ReadsBack series.toValue := by decide +kernel
  have htoml : toml.ReadsBack series.toValue := by decide +kernel
  exact ⟨hyaml, htoml, (convert?_eq_some (fun _ => by decide) (fun _ => hyaml) fun _ => htoml).1⟩

end Document.Format

end SchemaForge
