import SchemaForge.Settings

/-!
# `SchemaForge.Layer` — settings in layers

A layer sets some of the settings and leaves the others to the layers below it. Layers are put on
top of each other key by key.

## Contents
- **Layers.** `Layer`, `Layer.apply` and `Layer.merge`.
- **Laws.** Merging is associative and agrees with applying one layer after the other.
-/

namespace SchemaForge

/-- What one source of settings says; a key that is not set falls through to the layer below. -/
structure Layer where
  typeStyle : Option TypeStyle := none
  exports : Option Bool := none
  schemaSuffix : Option String := none
  typeSuffix : Option String := none
  comments : Option Bool := none
  semicolons : Option Bool := none
deriving DecidableEq, Inhabited

namespace Layer

/-- The layer that sets nothing. -/
def empty : Layer := {}

/-- The settings under a layer, with the keys that it sets changed. -/
def apply (layer : Layer) (settings : Settings) : Settings where
  typeStyle := layer.typeStyle.getD settings.typeStyle
  exports := layer.exports.getD settings.exports
  schemaSuffix := layer.schemaSuffix.getD settings.schemaSuffix
  typeSuffix := layer.typeSuffix.getD settings.typeSuffix
  comments := layer.comments.getD settings.comments
  semicolons := layer.semicolons.getD settings.semicolons

/-- Two layers as one; the upper one wins where both set a key. -/
def merge (lower upper : Layer) : Layer where
  typeStyle := upper.typeStyle.or lower.typeStyle
  exports := upper.exports.or lower.exports
  schemaSuffix := upper.schemaSuffix.or lower.schemaSuffix
  typeSuffix := upper.typeSuffix.or lower.typeSuffix
  comments := upper.comments.or lower.comments
  semicolons := upper.semicolons.or lower.semicolons

/-! ## Laws -/

@[simp] theorem apply_empty (settings : Settings) : empty.apply settings = settings := rfl

@[simp] theorem merge_empty (layer : Layer) : layer.merge empty = layer := rfl

@[simp] theorem empty_merge (layer : Layer) : empty.merge layer = layer := by
  cases layer; simp [merge, empty]

theorem merge_assoc (a b c : Layer) : (a.merge b).merge c = a.merge (b.merge c) := by
  simp [merge, Option.or_assoc]

theorem apply_merge (lower upper : Layer) (settings : Settings) :
    (lower.merge upper).apply settings = upper.apply (lower.apply settings) := by
  simp [merge, apply, Option.getD_or]

end Layer

end SchemaForge
