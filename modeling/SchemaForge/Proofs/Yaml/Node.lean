import SchemaForge.Document.Yaml.Reader
import SchemaForge.Proofs.Yaml.Tokens

/-!
# `Proofs.Yaml.Node` — the node of a written tree

The tokens of a tree in block style are read back as one node, with fuel for two steps a token. The
node keeps the characters of what stands without quotes, so that it is the node of the tree up to
the scalars that show how they are written.

## Contents
- **Nodes.** `valueNode`, the node that is read back.
- **Reading.** `IsBlock.node?_valueTokens`, with a lemma for items and one for entries.
- **Depth.** `limitDepth_eq_self`.
- **Texts.** `read?_write`.
-/

namespace SchemaForge.Document.Yaml

/-! ## Nodes -/

/-- The node of a text, which keeps its characters if it stands without quotes. -/
def textNode (text : String) : Node :=
  taggedScalar (if formOf text.toList = .plain then .plain else .quoted) none text

mutual

/-- The node that a written tree is read back as. -/
def valueNode : Value → Node
  | .null          => taggedScalar .plain none "null"
  | .bool value    => taggedScalar .plain none (if value then "true" else "false")
  | .int n         => taggedScalar .plain none (Json.intText n)
  | .float x       => taggedScalar .plain none (floatStyle.text x)
  | .text text     => textNode text
  | .list items    => .list (itemNodes items)
  | .table entries => .table (entryNodes entries)

def itemNodes : List Value → List Node
  | []            => []
  | item :: items => valueNode item :: itemNodes items

def entryNodes : List (String × Value) → List (Node × Node)
  | []                      => []
  | (key, value) :: entries => (taggedScalar .plain none key, valueNode value) :: entryNodes entries

end

/-! ## First tokens -/

theorem endsBlockMember_valueTokens (value : Value) (rest : List Token) :
    endsBlockMember (valueTokens value ++ rest).head? = false := by
  unfold valueTokens
  split
  case h_8 items hne =>
    obtain ⟨item, items, rfl⟩ := List.exists_cons_of_ne_nil hne
    rw [itemsTokens]
    rfl
  all_goals rfl

theorem endsBlockItem_valueTokens {value : Value} (hlist : ∀ items, value ≠ .list items)
    (rest : List Token) : endsBlockItem (valueTokens value ++ rest).head? = false := by
  unfold valueTokens
  split
  case h_8 items hne => exact absurd rfl (hlist items)
  all_goals rfl

/-! ## Reading -/

section Reading

variable {fuel : Nat} {position : Position} {rest : List Token}

theorem node?_scalar (form : ScalarForm) (text : String) (hfuel : 0 < fuel) :
    node? fuel position ⟨.scalar form text :: rest, [], []⟩
      = some (taggedScalar form none text, ⟨rest, [], []⟩) := by
  obtain ⟨fuel, rfl⟩ := Nat.exists_eq_add_one.mpr hfuel
  rw [node?]
  cases position <;> rfl

theorem node?_emptyList (hfuel : 1 < fuel) :
    node? fuel position ⟨.openList :: .closeList :: rest, [], []⟩
      = some (.list [], ⟨rest, [], []⟩) := by
  obtain ⟨fuel, rfl⟩ : ∃ n, fuel = n + 2 := ⟨fuel - 2, by omega⟩
  rw [node?]
  cases position <;> rfl

theorem node?_emptyTable (hfuel : 1 < fuel) :
    node? fuel position ⟨.openTable :: .closeTable :: rest, [], []⟩
      = some (.table [], ⟨rest, [], []⟩) := by
  obtain ⟨fuel, rfl⟩ : ∃ n, fuel = n + 2 := ⟨fuel - 2, by omega⟩
  rw [node?]
  cases position <;> rfl

theorem node?_freeItems (tokens : List Token) :
    node? (fuel + 1) .member ⟨.dash :: tokens, [], []⟩
      = (freeItems? fuel ⟨.dash :: tokens, [], []⟩).map fun (items, rest) => (.list items, rest) := by
  rw [node?]
  show Option.map _ (Option.map _ (freeItems? fuel _)) = _
  rw [Option.map_map]
  rfl

theorem node?_blockTable (hposition : position ≠ .inside) (tokens : List Token) :
    node? (fuel + 1) position ⟨.blockTable :: tokens, [], []⟩
      = (blockEntries? fuel ⟨tokens, [], []⟩).map fun (entries, rest) => (.table entries, rest) := by
  have hrun : node? (fuel + 1) position ⟨.blockTable :: tokens, [], []⟩
      = ((blockEntries? fuel ⟨tokens, [], []⟩).map fun (entries, rest) =>
          ((.table entries, rest) : Node × Stream)).map fun read =>
            (taggedCollection none read.1, read.2.bind none read.1) := by
    rw [node?]
    cases position with
    | inside => exact absurd rfl hposition
    | item => rfl
    | member => rfl
  rw [hrun, Option.map_map]
  rfl

/-- Whether a value is read back from its tokens, with fuel for two steps a token. Before a list the
    place is that of a value, and no more dashes come after it. -/
def IsReadBack (value : Value) : Prop :=
  ∀ ⦃fuel : Nat⦄ ⦃position : Position⦄ ⦃rest : List Token⦄,
    2 * (valueTokens value).length + 2 ≤ fuel → position ≠ .inside →
    (∀ items, value = .list items → position = .member ∧ rest.head? ≠ some .dash) →
    node? fuel position ⟨valueTokens value ++ rest, [], []⟩ = some (valueNode value, ⟨rest, [], []⟩)

theorem freeItems?_stop (hfuel : 0 < fuel) (hrest : rest.head? ≠ some .dash) :
    freeItems? fuel ⟨rest, [], []⟩ = some ([], ⟨rest, [], []⟩) := by
  obtain ⟨fuel, rfl⟩ := Nat.exists_eq_add_one.mpr hfuel
  rw [freeItems?]
  split
  · next hdash => exact absurd hdash hrest
  · rfl

/-- A dash is followed by an item. -/
theorem freeItems?_dash {tokens : List Token} (hitem : endsBlockItem tokens.head? = false)
    (hmember : endsBlockMember tokens.head? = false) :
    freeItems? (fuel + 1) ⟨.dash :: tokens, [], []⟩
      = (node? fuel .item ⟨tokens, [], []⟩).bind fun (item, stream) =>
          (freeItems? fuel stream).bind fun (items, stream) => some (item :: items, stream) := by
  have hpeek : (endsBlockItem (Stream.peek ⟨tokens, [], []⟩)
      || endsBlockMember (Stream.peek ⟨tokens, [], []⟩)) = false := by
    rw [Bool.or_eq_false_iff]
    exact ⟨hitem, hmember⟩
  rw [freeItems?]
  show (if (endsBlockItem (Stream.peek ⟨tokens, [], []⟩)
    || endsBlockMember (Stream.peek ⟨tokens, [], []⟩)) = true then _ else _) = _
  rw [hpeek, if_neg Bool.false_ne_true]
  rfl

/-- **The items of a list are read back**, up to where no dash comes. -/
theorem freeItems?_itemsTokens {items : List Value} (hlist : ∀ item ∈ items, ∀ inner, item ≠ .list inner)
    (hitems : ∀ item ∈ items, IsReadBack item) (hfuel : 2 * (itemsTokens items).length + 1 ≤ fuel)
    (hrest : rest.head? ≠ some .dash) :
    freeItems? fuel ⟨itemsTokens items ++ rest, [], []⟩ = some (itemNodes items, ⟨rest, [], []⟩) := by
  induction items generalizing fuel with
  | nil =>
      rw [itemsTokens, itemNodes]
      exact freeItems?_stop (by omega) hrest
  | cons item items ih =>
      rw [itemsTokens, List.length_append, List.length_cons] at hfuel
      obtain ⟨fuel, rfl⟩ : ∃ n, fuel = n + 1 := ⟨fuel - 1, by omega⟩
      have hinner := hlist item List.mem_cons_self
      have hitem : node? fuel .item ⟨valueTokens item ++ (itemsTokens items ++ rest), [], []⟩
          = some (valueNode item, ⟨itemsTokens items ++ rest, [], []⟩) :=
        hitems item List.mem_cons_self (by omega) (by decide) fun inner he => absurd he (hinner inner)
      have htail : freeItems? fuel ⟨itemsTokens items ++ rest, [], []⟩
          = some (itemNodes items, ⟨rest, [], []⟩) :=
        ih (fun item h => hlist item (List.mem_cons_of_mem _ h))
          (fun item h => hitems item (List.mem_cons_of_mem _ h)) (by omega)
      have hends := endsBlockItem_valueTokens hinner (itemsTokens items ++ rest)
      have hends' := endsBlockMember_valueTokens item (itemsTokens items ++ rest)
      rw [itemsTokens, List.cons_append, List.cons_append, List.append_assoc, freeItems?_dash hends hends',
        hitem, Option.bind_some]
      dsimp only
      rw [htail, itemNodes]
      rfl

theorem blockMember?_eq_node? {tokens : List Token} (hends : endsBlockMember tokens.head? = false) :
    blockMember? (fuel + 1) ⟨tokens, [], []⟩ = node? fuel .member ⟨tokens, [], []⟩ := by
  have hpeek : endsBlockMember (Stream.peek ⟨tokens, [], []⟩) = false := hends
  rw [blockMember?, hpeek, if_neg Bool.false_ne_true]

/-- A key is followed by its value. -/
theorem blockEntries?_key (key : String) {tokens : List Token} (hends : endsBlockMember tokens.head? = false)
    (hfuel : 0 < fuel) :
    blockEntries? (fuel + 2) ⟨.key :: .scalar .plain key :: .value :: tokens, [], []⟩
      = (node? fuel .member ⟨tokens, [], []⟩).bind fun (value, stream) =>
          (blockEntries? (fuel + 1) stream).bind fun (entries, stream) =>
            some ((taggedScalar .plain none key, value) :: entries, stream) := by
  have hkey : blockMember? (fuel + 1) ⟨.scalar .plain key :: .value :: tokens, [], []⟩
      = some (taggedScalar .plain none key, ⟨.value :: tokens, [], []⟩) := by
    rw [blockMember?_eq_node? rfl, node?_scalar .plain key hfuel]
  rw [blockEntries?]
  show (blockMember? (fuel + 1) ⟨.scalar .plain key :: .value :: tokens, [], []⟩).bind _ = _
  rw [hkey, Option.bind_some]
  show (blockMember? (fuel + 1) ⟨tokens, [], []⟩).bind _ = _
  rw [blockMember?_eq_node? hends]
  rfl

/-- **The entries of a table are read back** with the end of the table. -/
theorem blockEntries?_entriesTokens {entries : List (String × Value)}
    (hentries : ∀ entry ∈ entries, IsReadBack entry.2)
    (hfuel : 2 * (entriesTokens entries).length + 1 ≤ fuel) :
    blockEntries? fuel ⟨entriesTokens entries ++ .blockEnd :: rest, [], []⟩
      = some (entryNodes entries, ⟨rest, [], []⟩) := by
  induction entries generalizing fuel with
  | nil =>
      obtain ⟨fuel, rfl⟩ : ∃ n, fuel = n + 1 := ⟨fuel - 1, by omega⟩
      rw [entriesTokens, entryNodes]
      rfl
  | cons entry entries ih =>
      obtain ⟨key, value⟩ := entry
      rw [entriesTokens, List.length_append] at hfuel
      simp only [List.length_cons] at hfuel
      obtain ⟨fuel, rfl⟩ : ∃ n, fuel = n + 2 := ⟨fuel - 2, by omega⟩
      have hends := endsBlockMember_valueTokens value (entriesTokens entries ++ .blockEnd :: rest)
      -- what follows a list is the next key or the end of the table
      have hrest : (entriesTokens entries ++ .blockEnd :: rest).head? ≠ some .dash := by
        cases entries with
        | nil =>
            rw [entriesTokens]
            simp
        | cons next entries =>
            obtain ⟨key, value⟩ := next
            rw [entriesTokens]
            simp
      have hread : IsReadBack value := hentries (key, value) List.mem_cons_self
      have hvalue : node? fuel .member
          ⟨valueTokens value ++ (entriesTokens entries ++ .blockEnd :: rest), [], []⟩
            = some (valueNode value, ⟨entriesTokens entries ++ .blockEnd :: rest, [], []⟩) :=
        hread (by omega) (by decide) fun _ _ => ⟨rfl, hrest⟩
      have htail : blockEntries? (fuel + 1) ⟨entriesTokens entries ++ .blockEnd :: rest, [], []⟩
          = some (entryNodes entries, ⟨rest, [], []⟩) :=
        ih (fun entry h => hentries entry (List.mem_cons_of_mem _ h)) (by omega)
      rw [entriesTokens, entryNodes]
      simp only [List.cons_append, List.append_assoc]
      rw [blockEntries?_key key hends (by omega), hvalue, Option.bind_some]
      dsimp only
      rw [htail]
      rfl

end Reading

/-- **Every tree in block style is read back from its tokens.** -/
theorem IsBlock.isReadBack {value : Value} (h : IsBlock value) : IsReadBack value := by
  induction h with
  | bool value =>
      intro fuel position rest hfuel _ _
      rw [valueTokens, valueNode]
      exact node?_scalar .plain _ (by omega)
  | text hline =>
      intro fuel position rest hfuel _ _
      rw [valueTokens, valueNode]
      exact node?_scalar _ _ (by omega)
  | @list items hlist hitems ih =>
      intro fuel position rest hfuel hposition hmember
      cases items with
      | nil =>
          rw [valueTokens, valueNode, itemNodes]
          exact node?_emptyList (by omega)
      | cons item items =>
          obtain ⟨rfl, hrest⟩ := hmember _ rfl
          have hne : item :: items ≠ [] := List.cons_ne_nil item items
          have htokens : valueTokens (.list (item :: items)) = itemsTokens (item :: items) := by
            rw [valueTokens]
            exact hne
          rw [htokens] at hfuel ⊢
          obtain ⟨fuel, rfl⟩ : ∃ n, fuel = n + 1 := ⟨fuel - 1, by omega⟩
          have hread := freeItems?_itemsTokens hlist ih
            (show 2 * (itemsTokens (item :: items)).length + 1 ≤ fuel by omega) hrest
          rw [itemsTokens, List.cons_append, List.cons_append] at hread ⊢
          rw [valueNode, node?_freeItems, hread]
          rfl
  | @table entries hkeys hentries ih =>
      intro fuel position rest hfuel hposition _
      cases entries with
      | nil =>
          rw [valueTokens, valueNode, entryNodes]
          exact node?_emptyTable (by omega)
      | cons entry entries =>
          have htokens : valueTokens (.table (entry :: entries))
              = .blockTable :: (entriesTokens (entry :: entries) ++ [.blockEnd]) := by
            rw [valueTokens]
            · rfl
            · exact List.cons_ne_nil entry entries
          rw [htokens, List.length_cons, List.length_append] at hfuel
          obtain ⟨fuel, rfl⟩ : ∃ n, fuel = n + 1 := ⟨fuel - 1, by omega⟩
          have hread : blockEntries? fuel ⟨entriesTokens (entry :: entries) ++ .blockEnd :: rest, [], []⟩
              = some (entryNodes (entry :: entries), ⟨rest, [], []⟩) :=
            blockEntries?_entriesTokens ih (by omega)
          rw [htokens, List.cons_append, List.append_assoc, node?_blockTable hposition,
            List.singleton_append, hread, valueNode]
          rfl

/-! ## Depth -/

mutual

/-- A node that is not nested deeper than the limit stays as it is. -/
theorem limitDepth_eq_self : (node : Node) → ∀ depth, node.height ≤ depth → limitDepth depth node = node
  | .scalar _, depth, _ => by cases depth <;> rfl
  | .written _ _ _, depth, _ => by cases depth <;> rfl
  | .list items, depth, h => by
      rw [Node.height] at h
      obtain ⟨depth, rfl⟩ : ∃ n, depth = n + 1 := ⟨depth - 1, by omega⟩
      rw [limitDepth, limitItems_eq_self items depth (by omega)]
  | .table entries, depth, h => by
      rw [Node.height] at h
      obtain ⟨depth, rfl⟩ : ∃ n, depth = n + 1 := ⟨depth - 1, by omega⟩
      rw [limitDepth, limitEntries_eq_self entries depth (by omega)]

theorem limitItems_eq_self : (items : List Node) → ∀ depth, Node.itemsHeight items ≤ depth →
    limitItems depth items = items
  | [], depth, _ => by rw [limitItems]
  | item :: items, depth, h => by
      rw [Node.itemsHeight] at h
      rw [limitItems, limitDepth_eq_self item depth (by omega), limitItems_eq_self items depth (by omega)]

theorem limitEntries_eq_self : (entries : List (Node × Node)) → ∀ depth,
    Node.entriesHeight entries ≤ depth → limitEntries depth entries = entries
  | [], depth, _ => by rw [limitEntries]
  | (key, value) :: entries, depth, h => by
      rw [Node.entriesHeight] at h
      rw [limitEntries, limitDepth_eq_self key depth (by omega), limitDepth_eq_self value depth (by omega),
        limitEntries_eq_self entries depth (by omega)]

end

/-- What is read back is nested as deeply as the tree. -/
theorem height_taggedScalar (form : ScalarForm) (text : String) :
    (taggedScalar form none text).height = 0 := by
  cases form <;> rfl

mutual

theorem height_valueNode : (value : Value) → (valueNode value).height = (Node.ofValue value).height
  | .null          => by rw [valueNode, height_taggedScalar, Node.ofValue, Node.height]
  | .bool _        => by rw [valueNode, height_taggedScalar, Node.ofValue, Node.height]
  | .int _         => by rw [valueNode, height_taggedScalar, Node.ofValue, Node.height]
  | .float _       => by rw [valueNode, height_taggedScalar, Node.ofValue, Node.height]
  | .text _        => by rw [valueNode, textNode, height_taggedScalar, Node.ofValue, Node.height]
  | .list items    => by
      rw [valueNode, Node.height, Node.ofValue, Node.height, itemsHeight_itemNodes items]
  | .table entries => by
      rw [valueNode, Node.height, Node.ofValue, Node.height, entriesHeight_entryNodes entries]

theorem itemsHeight_itemNodes : (items : List Value) →
    Node.itemsHeight (itemNodes items) = Node.itemsHeight (Node.ofItems items)
  | []            => by rw [itemNodes, Node.ofItems]
  | item :: items => by
      rw [itemNodes, Node.itemsHeight, Node.ofItems, Node.itemsHeight, height_valueNode item,
        itemsHeight_itemNodes items]

theorem entriesHeight_entryNodes : (entries : List (String × Value)) →
    Node.entriesHeight (entryNodes entries) = Node.entriesHeight (Node.ofEntries entries)
  | []                      => by rw [entryNodes, Node.ofEntries]
  | (key, value) :: entries => by
      rw [entryNodes, Node.entriesHeight, Node.ofEntries, Node.entriesHeight, height_taggedScalar,
        height_valueNode value, entriesHeight_entryNodes entries, Node.height]

end

/-! ## Meaning -/

theorem valueNode_text (text : String) : valueNode (.text text) = textNode text := by rw [valueNode]

/-- **A text means itself**, whether it is written with quotes or not. -/
theorem textNode_cases (text : String) :
    textNode text = .written text (.text text) (.text text) ∨ textNode text = .scalar (.text text) := by
  by_cases hform : formOf text.toList = .plain
  · have hmeaning : meaning text.toList = .text text := by
      have hambiguous := (isPlain_of_formOf hform).1
      unfold isAmbiguous at hambiguous
      rw [Bool.or_eq_false_iff, bne_eq_false_iff_eq, String.ofList_toList] at hambiguous
      exact hambiguous.2
    left
    rw [textNode, if_pos hform]
    show Node.written text (meaning text.toList) (meaning text.toList) = _
    rw [hmeaning]
  · right
    rw [textNode, if_neg hform]
    rfl

variable (mode : Node.Mode) (text : String)

theorem text?_textNode : Node.text? mode (textNode text) = some text := by
  rcases textNode_cases text with h | h <;> rw [h] <;> cases mode <;> rfl

theorem optional?_textNode :
    Node.optional? mode (Node.text? mode) (textNode text) = some (some text) := by
  have hnull : Node.isNull mode (textNode text) = false := by
    rcases textNode_cases text with h | h <;> rw [h] <;> cases mode <;> rfl
  rw [Node.optional?, hnull, if_neg Bool.false_ne_true, text?_textNode]
  rfl

theorem isReadable_textNode : (textNode text).isReadable = true := by
  rcases textNode_cases text with h | h <;> rw [h] <;> rfl

theorem bool?_valueNode (value : Bool) : Node.bool? mode (valueNode (.bool value)) = some value := by
  rw [valueNode]
  cases value <;> cases mode <;> rfl

theorem keyName?_textNode {names : List String} {name : String} (h : name ∈ names) :
    Node.keyName? mode names (textNode name) = some (some name) := by
  have hcontains : names.contains name = true := List.contains_iff_mem.mpr h
  unfold Node.keyName?
  rw [text?_textNode]
  dsimp only
  rw [hcontains, if_pos rfl]

/-- A key is read as a text. -/
theorem IsPlainKey.taggedScalar_eq {key : String} (h : IsPlainKey key) :
    taggedScalar .plain none key = textNode key := by
  rw [textNode, if_pos h.form]

theorem entryNodes_eq_map {entries : List (String × Value)}
    (hkeys : ∀ entry ∈ entries, IsPlainKey entry.1) :
    entryNodes entries = entries.map fun entry => (textNode entry.1, valueNode entry.2) := by
  induction entries with
  | nil => rw [entryNodes, List.map_nil]
  | cons entry entries ih =>
      obtain ⟨key, value⟩ := entry
      rw [entryNodes, (hkeys (key, value) List.mem_cons_self).taggedScalar_eq,
        ih fun entry h => hkeys entry (List.mem_cons_of_mem _ h), List.map_cons]

theorem itemsReadable_itemNodes {items : List Value}
    (h : ∀ item ∈ items, (valueNode item).isReadable = true) :
    Node.itemsReadable (itemNodes items) = true := by
  induction items with
  | nil => rw [itemNodes, Node.itemsReadable]
  | cons item items ih =>
      rw [itemNodes, Node.itemsReadable, h item List.mem_cons_self,
        ih fun item hitem => h item (List.mem_cons_of_mem _ hitem)]
      rfl

theorem entriesReadable_entryNodes {entries : List (String × Value)}
    (hkeys : ∀ entry ∈ entries, IsPlainKey entry.1)
    (h : ∀ entry ∈ entries, (valueNode entry.2).isReadable = true) :
    Node.entriesReadable (entryNodes entries) = true := by
  induction entries with
  | nil => rw [entryNodes, Node.entriesReadable]
  | cons entry entries ih =>
      obtain ⟨key, value⟩ := entry
      have hvalue : (valueNode value).isReadable = true := h (key, value) List.mem_cons_self
      rw [entryNodes, Node.entriesReadable, (hkeys (key, value) List.mem_cons_self).taggedScalar_eq,
        isReadable_textNode, hvalue, ih (fun entry hentry => hkeys entry (List.mem_cons_of_mem _ hentry))
          fun entry hentry => h entry (List.mem_cons_of_mem _ hentry)]
      rfl

/-- **Every scalar of a tree in block style is read back with a meaning.** -/
theorem IsBlock.isReadable {value : Value} (h : IsBlock value) : (valueNode value).isReadable = true := by
  induction h with
  | bool value =>
      rw [valueNode]
      cases value <;> rfl
  | text _ =>
      rw [valueNode]
      exact isReadable_textNode _
  | list _ _ ih =>
      rw [valueNode, Node.isReadable]
      exact itemsReadable_itemNodes ih
  | table hkeys _ ih =>
      rw [valueNode, Node.isReadable]
      exact entriesReadable_entryNodes hkeys ih

/-! ## Texts -/

/-- **A written table is read back** as its node, if it is not nested too deeply. -/
theorem read?_write {entries : List (String × Value)} (hne : entries ≠ [])
    (h : IsBlock (.table entries)) (hheight : (Node.ofValue (.table entries)).height ≤ depthLimit) :
    read? (write (.table entries)) = some (valueNode (.table entries)) := by
  have hnode : node? (4 * (valueTokens (.table entries)).length + 4) .item
      ⟨valueTokens (.table entries) ++ [], [], []⟩ = some (valueNode (.table entries), ⟨[], [], []⟩) :=
    h.isReadBack (by omega) (by decide) fun _ he => nomatch he
  rw [List.append_nil] at hnode
  have hdocument : document? (valueTokens (.table entries)) = some (valueNode (.table entries), []) := by
    have hfirst : ∃ tail, valueTokens (.table entries) = .blockTable :: tail := by
      rw [valueTokens]
      · exact ⟨_, rfl⟩
      · exact hne
    obtain ⟨tail, htokens⟩ := hfirst
    rw [htokens] at hnode ⊢
    rw [document?]
    show (node? _ .item ⟨.blockTable :: tail, [], []⟩).bind _ = _
    rw [hnode]
    rfl
  rw [read?, tokens?_write hne h, Option.bind_eq_bind, Option.bind_some, hdocument, Option.bind_eq_bind,
    Option.bind_some]
  dsimp only
  rw [limitDepth_eq_self _ _ ((height_valueNode _).trans_le hheight)]
  rfl

end SchemaForge.Document.Yaml
