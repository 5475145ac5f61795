import SchemaForge.Document.Format
import SchemaForge.Proofs.Document.Codec
import SchemaForge.Proofs.Json.Tree

/-!
# `Proofs.Json.RoundTrip` — a schema is recovered from its JSON document

A schema that is written as a JSON document and read again is the same schema, but for the bounds
that are no finite numbers: JSON has no numeral for them, so they are written as null and read as
absent.

## Contents
- **Round trip.** `parse_render_json`, and `parse_render_json_samples`, a schema with such bounds.
-/

namespace SchemaForge.Document.Json

/-- A count is read back as an integer. -/
theorem fitsInteger_count (n : UInt32) : fitsInteger n.toNat = true := by
  have hlt : n.toNat < 4294967296 := n.toNat_lt
  have hpow : Nat.pow 2 64 = 18446744073709551616 := rfl
  unfold fitsInteger Width.holdsUnsigned
  rw [Bool.or_eq_true]
  right
  rw [Bool.and_eq_true, decide_eq_true_eq, decide_eq_true_eq, hpow]
  omega

theorem finite?_of_isFinite {x : Binary64} (h : x.isFinite = true) : finite? x = some x := if_pos h

/-- **A schema is recovered from its JSON document.** The document may be nested to the depth that
    the reader allows; the bounds that are no finite numbers are then absent, at every depth of
    element rules, and nothing else changes. -/
theorem parse_render_json (schema : Schema) (hnesting : (Node.ofValue schema.toValue).height < 128) :
    Format.json.parse (Format.json.render schema) = some (schema.mapFloats finite?) ∧
      ((∀ x ∈ schema.floats, x.isFinite = true) →
        Format.json.parse (Format.json.render schema) = some schema) := by
  have hread := read?_write (schema.intsIn_toValue fitsInteger_count) (Nat.le_of_lt_succ hnesting)
  have hparse : Format.json.parse (Format.json.render schema)
      = some (schema.mapFloats finite?) := by
    have hnode : Format.json.parse (Format.json.render schema)
        = (read? (write schema.toValue)).bind fun node => Schema.ofNode? node := rfl
    rw [hnode, hread]
    exact Schema.ofNode?_toValue finite? schema
  refine ⟨hparse, fun hfinite => ?_⟩
  rw [hparse, Schema.mapFloats_eq_self fun x hx => finite?_of_isFinite (hfinite x hx)]

/-- A schema with bounds that JSON can hold and bounds that it cannot, also of elements. -/
def samples : Schema where
  name := "Samples"
  fields :=
    [{ name := "level", rules := .number { min := some .zero, max := some (.infinity false) } },
     { name := "series", required := false,
       rules := .array { item := .number } (some (.number { multipleOf := some .nan, int := true })) }]

/-- What a JSON document keeps of it. -/
def keptSamples : Schema where
  name := "Samples"
  fields :=
    [{ name := "level", rules := .number { min := some .zero } },
     { name := "series", required := false,
       rules := .array { item := .number } (some (.number { int := true })) }]

theorem parse_render_json_samples :
    Format.json.parse (Format.json.render samples) = some keptSamples ∧
      Format.json.parse (Format.json.render keptSamples) = some keptSamples := by
  have hnesting : (Node.ofValue samples.toValue).height < 128 := by decide
  have hkept : samples.mapFloats finite? = keptSamples := rfl
  refine ⟨?_, ?_⟩
  · rw [(parse_render_json samples hnesting).1, hkept]
  · refine (parse_render_json keptSamples (by decide)).2 ?_
    decide

end SchemaForge.Document.Json
