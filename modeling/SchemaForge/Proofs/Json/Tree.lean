import SchemaForge.Document.Json.Reader
import SchemaForge.Proofs.Document.Value
import SchemaForge.Proofs.Json.Scalar

/-!
# `Proofs.Json.Tree` — written trees are read back

The text of a tree is a text of known tokens, with blanks between them that only carry the layout,
and the reader builds the tree again from those tokens. The doubles that have no numeral are the
only thing that is lost.

## Contents
- **Tokens of a text.** `Lexes`, what it takes for a text to have the given tokens.
- **Tokens of a tree.** `valueTokens`, and `lexes_valueText`, by recursion over the tree.
- **Trees of tokens.** `value?_valueTokens`, by the same recursion.
- **Round trip.** `read?_write_append` and `read?_write`.
-/

namespace SchemaForge.Document.Json

variable {text rest : List Char} {token : Token} {tokens : List Token}

/-! ## The tokens of a text -/

/-- The text has the given tokens, however much fuel there is beyond its length. -/
def Lexes (text : List Char) (tokens : List Token) : Prop :=
  ∀ fuel, text.length ≤ fuel → tokensWithin? fuel text = some tokens

theorem lexes_nil : Lexes [] [] := by
  intro fuel _
  cases fuel <;> rfl

theorem Lexes.blank {c : Char} (hblank : isBlank c = true) (h : Lexes text tokens) :
    Lexes (c :: text) tokens := by
  intro fuel hfuel
  cases fuel with
  | zero => exact absurd hfuel (by simp)
  | succ fuel =>
      rw [tokensWithin?, if_pos hblank]
      exact h fuel (Nat.le_of_succ_le_succ hfuel)

theorem Lexes.blanks {blanks : List Char} (hblanks : ∀ c ∈ blanks, isBlank c = true)
    (h : Lexes text tokens) : Lexes (blanks ++ text) tokens := by
  induction blanks with
  | nil => exact h
  | cons c blanks ih =>
      exact Lexes.blank (hblanks c List.mem_cons_self)
        (ih fun d hd => hblanks d (List.mem_cons_of_mem c hd))

/-- No token starts with a blank. -/
theorem isBlank_eq_false_of_token? {c : Char} {result : Token × List Char}
    (h : token? (c :: text) = some result) : isBlank c = false := by
  by_contra hblank
  rw [Bool.not_eq_false] at hblank
  have hdigit : c.isDigit = true → False := by
    intro hdigit
    unfold isBlank at hblank
    simp only [Bool.or_eq_true, beq_iff_eq] at hblank
    rcases hblank with ((rfl | rfl) | rfl) | rfl <;> exact absurd hdigit (by decide)
  unfold token? at h
  split at h
  case h_12 =>
    rw [Option.map_eq_some_iff] at h
    obtain ⟨number, hnumber, -⟩ := h
    exact hdigit (isDigit_of_number? hnumber)
  all_goals
    next heq =>
      rw [(List.cons.inj heq).1] at hblank
      exact absurd hblank (by decide)

/-- A text whose front is a token, and whose rest has tokens. -/
theorem Lexes.piece {piece : List Char} (hne : piece ≠ [])
    (htoken : token? (piece ++ rest) = some (token, rest)) (h : Lexes rest tokens) :
    Lexes (piece ++ rest) (token :: tokens) := by
  intro fuel hfuel
  cases piece with
  | nil => exact absurd rfl hne
  | cons c piece =>
      cases fuel with
      | zero => exact absurd hfuel (by simp)
      | succ fuel =>
          rw [List.cons_append] at htoken hfuel ⊢
          have hrest : rest.length ≤ fuel := by
            rw [List.length_cons, List.length_append] at hfuel
            omega
          rw [tokensWithin?, if_neg (by rw [isBlank_eq_false_of_token? htoken]; decide), htoken]
          dsimp only [bind, Option.bind]
          rw [h fuel hrest]

theorem ne_nil_of_token? {piece : List Char} (h : token? (piece ++ []) = some (token, [])) :
    piece ≠ [] := by
  rintro rfl
  exact nomatch h

/-- A punctuation mark is a token. -/
theorem Lexes.mark {c : Char} (htoken : token? (c :: rest) = some (token, rest))
    (h : Lexes rest tokens) : Lexes (c :: rest) (token :: tokens) :=
  Lexes.piece (List.cons_ne_nil c []) htoken h

/-! ## The tokens of a tree -/

mutual

/-- The tokens of a tree. -/
def valueTokens : Value → List Token
  | .null                   => [.scalar .null]
  | .bool value             => [.scalar (.bool value)]
  | .int value              => [.scalar (.int value)]
  | .float value            => [.scalar (readFloat value)]
  | .text value             => [.string (some value)]
  | .list []                => [.openList, .closeList]
  | .list (item :: items)   => .openList :: (valueTokens item ++ itemsTokens items)
  | .table []               => [.openTable, .closeTable]
  | .table ((key, value) :: entries) =>
    .openTable :: .string (some key) :: .colon :: (valueTokens value ++ entriesTokens entries)

/-- The tokens of the items after the first, up to the closing bracket. -/
def itemsTokens : List Value → List Token
  | []            => [.closeList]
  | item :: items => .comma :: (valueTokens item ++ itemsTokens items)

/-- The tokens of the entries after the first, up to the closing brace. -/
def entriesTokens : List (String × Value) → List Token
  | []                      => [.closeTable]
  | (key, value) :: entries =>
    .comma :: .string (some key) :: .colon :: (valueTokens value ++ entriesTokens entries)

end

/-- Whether an integer is read back as one. -/
def fitsInteger (n : Int) : Bool := Width.holdsSigned 63 n || Width.holdsUnsigned 64 n

theorem endsNumber_cons {c : Char} (h : c.isDigit = false ∧ c ≠ '.' ∧ c ≠ 'e' ∧ c ≠ 'E') :
    EndsNumber (c :: rest) := by
  intro d hd
  obtain rfl : c = d := by simpa using hd
  exact h

theorem newline_append (level : Nat) (rest : List Char) :
    (newline level).toList ++ rest = '\n' :: (List.replicate (2 * level) ' ' ++ rest) := by
  unfold newline
  simp

theorem endsNumber_newline (level : Nat) (rest : List Char) :
    EndsNumber ((newline level).toList ++ rest) := by
  rw [newline_append]
  exact endsNumber_cons (by decide)

theorem Lexes.newline (level : Nat) (h : Lexes text tokens) :
    Lexes ((newline level).toList ++ text) tokens := by
  rw [newline_append]
  refine Lexes.blank rfl (Lexes.blanks ?_ h)
  intro c hc
  rw [List.eq_of_mem_replicate hc]
  rfl

/-- A key and the colon after it. -/
theorem Lexes.key (key : String) (h : Lexes text tokens) :
    Lexes ((stringText key).toList ++ (": ".toList ++ text))
      (.string (some key) :: .colon :: tokens) := by
  refine Lexes.piece ?_ (token?_stringText key _) (Lexes.mark rfl (Lexes.blank rfl h))
  unfold stringText
  rw [String.toList_ofList]
  exact List.cons_ne_nil _ _

theorem endsNumber_itemsText (level : Nat) (items : List Value) (rest : List Char) :
    EndsNumber ((itemsText level items).toList ++ ((newline level).toList ++ rest)) := by
  cases items with
  | nil =>
      rw [itemsText]
      exact endsNumber_newline level rest
  | cons item items =>
      rw [itemsText]
      simpa using endsNumber_cons (c := ',') (by decide)

theorem endsNumber_entriesText (level : Nat) (entries : List (String × Value)) (rest : List Char) :
    EndsNumber ((entriesText level entries).toList ++ ((newline level).toList ++ rest)) := by
  cases entries with
  | nil =>
      rw [entriesText]
      exact endsNumber_newline level rest
  | cons entry entries =>
      rw [entriesText]
      simpa using endsNumber_cons (c := ',') (by decide)

mutual

/-- **The text of a tree has the tokens of the tree.** -/
theorem lexes_valueText (level : Nat) : (value : Value) → value.intsIn fitsInteger = true →
    ∀ rest tokens, EndsNumber rest → Lexes rest tokens →
    Lexes ((valueText level value).toList ++ rest) (valueTokens value ++ tokens)
  | .null, _, rest, tokens, _, h => by
      rw [valueText, valueTokens]
      exact Lexes.piece (by decide) rfl h
  | .bool true, _, rest, tokens, _, h => by
      rw [valueText, valueTokens]
      exact Lexes.piece (by decide) rfl h
  | .bool false, _, rest, tokens, _, h => by
      rw [valueText, valueTokens]
      exact Lexes.piece (by decide) rfl h
  | .int n, hint, rest, tokens, hend, h => by
      rw [valueText, valueTokens]
      rw [Value.intsIn] at hint
      exact Lexes.piece (ne_nil_of_token? (token?_intText hint endsNumber_nil))
        (token?_intText hint hend) h
  | .float x, _, rest, tokens, hend, h => by
      rw [valueText, valueTokens]
      exact Lexes.piece (ne_nil_of_token? (token?_floatText x endsNumber_nil))
        (token?_floatText x hend) h
  | .text value, _, rest, tokens, _, h => by
      rw [valueText, valueTokens]
      exact Lexes.piece (ne_nil_of_token? (token?_stringText value []))
        (token?_stringText value rest) h
  | .list [], _, rest, tokens, _, h => by
      rw [valueText, valueTokens]
      exact Lexes.mark rfl (Lexes.mark rfl h)
  | .list (item :: items), hint, rest, tokens, _, h => by
      rw [Value.intsIn, Value.itemsIn, Bool.and_eq_true] at hint
      -- from the right: the later items, the first one, the bracket
      have hitems := lexes_itemsText level items hint.2 rest tokens h
      have hitem := lexes_valueText (level + 1) item hint.1 _ _
        (endsNumber_itemsText level items _) hitems
      have hlist := Lexes.mark (c := '[') rfl (Lexes.newline (level + 1) hitem)
      rw [valueText, valueTokens]
      simpa using hlist
  | .table [], _, rest, tokens, _, h => by
      rw [valueText, valueTokens]
      exact Lexes.mark rfl (Lexes.mark rfl h)
  | .table ((key, value) :: entries), hint, rest, tokens, _, h => by
      rw [Value.intsIn, Value.entriesIn, Bool.and_eq_true] at hint
      have hentries := lexes_entriesText level entries hint.2 rest tokens h
      have hvalue := lexes_valueText (level + 1) value hint.1 _ _
        (endsNumber_entriesText level entries _) hentries
      have htable := Lexes.mark (c := '\x7b') rfl
        (Lexes.newline (level + 1) (Lexes.key key hvalue))
      rw [valueText, valueTokens]
      simpa using htable

theorem lexes_itemsText (level : Nat) : (items : List Value) →
    Value.itemsIn fitsInteger items = true → ∀ rest tokens, Lexes rest tokens →
    Lexes ((itemsText level items).toList ++ ((newline level).toList ++ ("]".toList ++ rest)))
      (itemsTokens items ++ tokens)
  | [], _, rest, tokens, h => by
      rw [itemsText, itemsTokens]
      exact Lexes.newline level (Lexes.mark rfl h)
  | item :: items, hint, rest, tokens, h => by
      rw [Value.itemsIn, Bool.and_eq_true] at hint
      have hitems := lexes_itemsText level items hint.2 rest tokens h
      have hitem := lexes_valueText (level + 1) item hint.1 _ _
        (endsNumber_itemsText level items _) hitems
      have hmore := Lexes.mark (c := ',') rfl (Lexes.newline (level + 1) hitem)
      rw [itemsText, itemsTokens]
      simpa using hmore

theorem lexes_entriesText (level : Nat) : (entries : List (String × Value)) →
    Value.entriesIn fitsInteger entries = true → ∀ rest tokens, Lexes rest tokens →
    Lexes ((entriesText level entries).toList
        ++ ((newline level).toList ++ ("\x7d".toList ++ rest)))
      (entriesTokens entries ++ tokens)
  | [], _, rest, tokens, h => by
      rw [entriesText, entriesTokens]
      exact Lexes.newline level (Lexes.mark rfl h)
  | (key, value) :: entries, hint, rest, tokens, h => by
      rw [Value.entriesIn, Bool.and_eq_true] at hint
      have hentries := lexes_entriesText level entries hint.2 rest tokens h
      have hvalue := lexes_valueText (level + 1) value hint.1 _ _
        (endsNumber_entriesText level entries _) hentries
      have hmore := Lexes.mark (c := ',') rfl
        (Lexes.newline (level + 1) (Lexes.key key hvalue))
      rw [entriesText, entriesTokens]
      simpa using hmore

end

/-! ## The tree of the tokens -/

/-- The doubles that have a numeral. -/
def finite? (x : Binary64) : Option Binary64 := if x.isFinite then some x else none

theorem ofValue_float (x : Binary64) :
    Node.ofValue ((Value.float x).mapFloats finite?) = .scalar (readFloat x) := by
  unfold finite? readFloat
  rw [Value.mapFloats]
  by_cases hfinite : x.isFinite = true
  · rw [if_pos hfinite, if_pos hfinite]
    rfl
  · rw [if_neg hfinite, if_neg hfinite]
    rfl

theorem limited_eq {depth : Nat} (node : Node) (h : depth ≤ depthLimit) :
    limited depth node = node := if_pos h

theorem length_valueTokens_pos (value : Value) : 0 < (valueTokens value).length := by
  unfold valueTokens
  split <;> exact Nat.succ_pos _

theorem exists_fuel {value : Value} {fuel : Nat} (h : 2 * (valueTokens value).length ≤ fuel) :
    ∃ less, fuel = less + 1 := by
  have := length_valueTokens_pos value
  exact ⟨fuel - 1, by omega⟩

theorem head_valueTokens (value : Value) (rest : List Token) :
    (valueTokens value ++ rest).head? ≠ some .closeList := by
  unfold valueTokens
  split <;> simp

/-- A list that has items. -/
theorem value?_list {fuel depth : Nat} {after : List Token} {nodes : List Node}
    (hhead : tokens.head? ≠ some .closeList) (hdepth : depth + 1 ≤ depthLimit)
    (hitems : items? fuel (depth + 1) tokens = some (nodes, after)) :
    value? (fuel + 1) depth (.openList :: tokens) = some (.list nodes, after) := by
  rw [value?.eq_def]
  dsimp only
  split
  · next heq => exact nomatch heq
  · next heq => exact nomatch heq
  · next heq =>
      rw [(List.cons.inj heq).2] at hhead
      exact absurd rfl hhead
  · next heq =>
      rw [← (List.cons.inj heq).2, hitems]
      exact congrArg (fun node => some (node, after)) (limited_eq _ hdepth)
  · next heq => exact nomatch heq
  · next heq => exact nomatch heq
  · next hnot _ _ => exact absurd rfl (hnot tokens)

/-- A table that has entries. -/
theorem value?_table {fuel depth : Nat} {after : List Token} {key : String}
    {nodes : List (Node × Node)} (hdepth : depth + 1 ≤ depthLimit)
    (hentries : entries? fuel (depth + 1) (.string (some key) :: tokens) = some (nodes, after)) :
    value? (fuel + 1) depth (.openTable :: .string (some key) :: tokens)
      = some (.table nodes, after) := by
  rw [value?, hentries]
  · exact congrArg (fun node => some (node, after)) (limited_eq _ hdepth)
  · rintro _ ⟨⟩

mutual

/-- **The tokens of a tree are read as the tree**, if it is not nested too deeply. -/
theorem value?_valueTokens : (value : Value) → ∀ (fuel depth : Nat) (rest : List Token),
    depth + (Node.ofValue value).height ≤ depthLimit → 2 * (valueTokens value).length ≤ fuel →
    value? fuel depth (valueTokens value ++ rest)
      = some (Node.ofValue (value.mapFloats finite?), rest)
  | .null, fuel, depth, rest, _, hfuel => by
      obtain ⟨fuel, rfl⟩ := exists_fuel hfuel
      rw [valueTokens, Value.mapFloats, Node.ofValue]
      rfl
  | .bool b, fuel, depth, rest, _, hfuel => by
      obtain ⟨fuel, rfl⟩ := exists_fuel hfuel
      rw [valueTokens, Value.mapFloats, Node.ofValue]
      rfl
  | .int n, fuel, depth, rest, _, hfuel => by
      obtain ⟨fuel, rfl⟩ := exists_fuel hfuel
      rw [valueTokens, Value.mapFloats, Node.ofValue]
      rfl
  | .float x, fuel, depth, rest, _, hfuel => by
      obtain ⟨fuel, rfl⟩ := exists_fuel hfuel
      rw [valueTokens, ofValue_float]
      rfl
  | .text text, fuel, depth, rest, _, hfuel => by
      obtain ⟨fuel, rfl⟩ := exists_fuel hfuel
      rw [valueTokens, Value.mapFloats, Node.ofValue]
      rfl
  | .list [], fuel, depth, rest, hdepth, hfuel => by
      obtain ⟨fuel, rfl⟩ := exists_fuel hfuel
      rw [Node.ofValue, Node.ofItems, Node.height, Node.itemsHeight] at hdepth
      rw [valueTokens, Value.mapFloats, Value.mapItems, Node.ofValue, Node.ofItems,
        ← limited_eq (.list []) hdepth]
      rfl
  | .list (item :: items), fuel, depth, rest, hdepth, hfuel => by
      obtain ⟨fuel, rfl⟩ := exists_fuel hfuel
      rw [valueTokens, List.length_cons, List.length_append] at hfuel
      rw [Node.ofValue, Node.ofItems, Node.height, Node.itemsHeight] at hdepth
      -- the walk over the items takes fuel of its own
      obtain ⟨fuel, rfl⟩ : ∃ less, fuel = less + 1 := ⟨fuel - 1, by
        have := length_valueTokens_pos item
        omega⟩
      have hitem := value?_valueTokens item fuel (depth + 1) (itemsTokens items ++ rest)
        (by omega) (by omega)
      have hitems := items?_itemsTokens items fuel (depth + 1) rest _ _ (by omega) (by omega) hitem
      rw [valueTokens, Value.mapFloats, Value.mapItems, Node.ofValue, Node.ofItems,
        List.cons_append, List.append_assoc]
      exact value?_list (head_valueTokens item _) (by omega) hitems
  | .table [], fuel, depth, rest, hdepth, hfuel => by
      obtain ⟨fuel, rfl⟩ := exists_fuel hfuel
      rw [Node.ofValue, Node.ofEntries, Node.height, Node.entriesHeight] at hdepth
      rw [valueTokens, Value.mapFloats, Value.mapEntries, Node.ofValue, Node.ofEntries,
        ← limited_eq (.table []) hdepth]
      rfl
  | .table ((key, value) :: entries), fuel, depth, rest, hdepth, hfuel => by
      obtain ⟨fuel, rfl⟩ := exists_fuel hfuel
      rw [valueTokens, List.length_cons, List.length_cons, List.length_cons,
        List.length_append] at hfuel
      rw [Node.ofValue, Node.ofEntries, Node.height, Node.entriesHeight] at hdepth
      obtain ⟨fuel, rfl⟩ : ∃ less, fuel = less + 1 := ⟨fuel - 1, by omega⟩
      have hvalue := value?_valueTokens value fuel (depth + 1) (entriesTokens entries ++ rest)
        (by omega) (by omega)
      have hentries := entries?_entriesTokens entries fuel (depth + 1) rest key _ _
        (by omega) (by omega) hvalue
      rw [valueTokens, Value.mapFloats, Value.mapEntries, Node.ofValue, Node.ofEntries,
        List.cons_append, List.cons_append, List.cons_append, List.append_assoc]
      exact value?_table (by omega) hentries

/-- The items after the first are read once the first has been. -/
theorem items?_itemsTokens : (items : List Value) → ∀ (fuel depth : Nat) (rest : List Token)
    (tokens : List Token) (node : Node),
    depth + Node.itemsHeight (Node.ofItems items) ≤ depthLimit →
    2 * (itemsTokens items).length ≤ fuel →
    value? fuel depth tokens = some (node, itemsTokens items ++ rest) →
    items? (fuel + 1) depth tokens
      = some (node :: Node.ofItems (Value.mapItems finite? items), rest)
  | [], fuel, depth, rest, tokens, node, _, _, hfirst => by
      rw [items?, hfirst]
      rfl
  | item :: items, fuel, depth, rest, tokens, node, hdepth, hfuel, hfirst => by
      rw [itemsTokens, List.length_cons, List.length_append] at hfuel
      rw [Node.ofItems, Node.itemsHeight] at hdepth
      obtain ⟨fuel, rfl⟩ : ∃ less, fuel = less + 1 := ⟨fuel - 1, by omega⟩
      have hitem := value?_valueTokens item fuel depth (itemsTokens items ++ rest)
        (by omega) (by omega)
      have hitems := items?_itemsTokens items fuel depth rest _ _ (by omega) (by omega) hitem
      rw [itemsTokens, List.cons_append, List.append_assoc] at hfirst
      rw [items?, hfirst, Value.mapItems, Node.ofItems]
      dsimp only [bind, Option.bind]
      rw [hitems]

/-- The entries after the first are read once the first has been. -/
theorem entries?_entriesTokens : (entries : List (String × Value)) → ∀ (fuel depth : Nat)
    (rest : List Token) (key : String) (tokens : List Token) (node : Node),
    depth + Node.entriesHeight (Node.ofEntries entries) ≤ depthLimit →
    2 * (entriesTokens entries).length ≤ fuel →
    value? fuel depth tokens = some (node, entriesTokens entries ++ rest) →
    entries? (fuel + 1) depth (.string (some key) :: .colon :: tokens)
      = some ((.scalar (.text key), node)
          :: Node.ofEntries (Value.mapEntries finite? entries), rest)
  | [], fuel, depth, rest, key, tokens, node, _, _, hfirst => by
      rw [entries?, hfirst]
      rfl
  | (key', value) :: entries, fuel, depth, rest, key, tokens, node, hdepth, hfuel, hfirst => by
      rw [entriesTokens, List.length_cons, List.length_cons, List.length_cons,
        List.length_append] at hfuel
      rw [Node.ofEntries, Node.entriesHeight] at hdepth
      obtain ⟨fuel, rfl⟩ : ∃ less, fuel = less + 1 := ⟨fuel - 1, by omega⟩
      have hvalue := value?_valueTokens value fuel depth (entriesTokens entries ++ rest)
        (by omega) (by omega)
      have hentries := entries?_entriesTokens entries fuel depth rest key' _ _
        (by omega) (by omega) hvalue
      rw [entriesTokens, List.cons_append, List.cons_append, List.cons_append,
        List.append_assoc] at hfirst
      rw [entries?, hfirst, Value.mapEntries, Node.ofEntries]
      dsimp only [bind, Option.bind]
      rw [hentries]
      rfl

end

/-! ## Round trip -/

/-- White space ends a number. -/
theorem endsNumber_blanks {blanks : List Char} (h : ∀ c ∈ blanks, isBlank c = true) :
    EndsNumber blanks := by
  cases blanks with
  | nil => exact endsNumber_nil
  | cons c blanks =>
      have hc := h c List.mem_cons_self
      unfold isBlank at hc
      simp only [Bool.or_eq_true, beq_iff_eq] at hc
      refine endsNumber_cons ?_
      rcases hc with ((rfl | rfl) | rfl) | rfl <;> decide

/-- **A written tree is read back**, with null for the doubles that are not finite, also with white
    space after it. -/
theorem read?_write_append {value : Value} (hints : value.intsIn fitsInteger = true)
    (hheight : (Node.ofValue value).height ≤ depthLimit) {blanks : List Char}
    (hblanks : ∀ c ∈ blanks, isBlank c = true) :
    read? (write value ++ String.ofList blanks) = some (Node.ofValue (value.mapFloats finite?)) := by
  have htokens : tokens? (write value ++ String.ofList blanks).toList = some (valueTokens value) := by
    have hend : Lexes blanks [] := by
      have := Lexes.blanks hblanks lexes_nil
      rwa [List.append_nil] at this
    have hlexes := lexes_valueText 0 value hints blanks [] (endsNumber_blanks hblanks) hend
    rw [List.append_nil] at hlexes
    rw [String.toList_append, String.toList_ofList]
    exact hlexes _ (Nat.le_refl _)
  have hvalue := value?_valueTokens value (2 * (valueTokens value).length + 1) 0 []
    (by omega) (by omega)
  rw [List.append_nil] at hvalue
  unfold read?
  rw [htokens]
  dsimp only [bind, Option.bind]
  rw [hvalue]

theorem read?_write {value : Value} (hints : value.intsIn fitsInteger = true)
    (hheight : (Node.ofValue value).height ≤ depthLimit) :
    read? (write value) = some (Node.ofValue (value.mapFloats finite?)) := by
  have hread := read?_write_append hints hheight (List.forall_mem_nil (isBlank · = true))
  rwa [String.ofList_nil, String.append_empty] at hread

end SchemaForge.Document.Json
