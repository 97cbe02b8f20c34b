import TapeLang.Yaml.Scalar

/-! The tree of a YAML document. Collections are written by indentation or in brackets; there
are no tags, anchors, block scalars or directives. -/
namespace TapeLang.Yaml

/-- A node with the line it starts on. A scalar tells whether it was written without quotation
marks. -/
inductive Node where
  | scalar (line : Nat) (text : List Char) (isPlain : Bool)
  | list (line : Nat) (items : List Node)
  | mapping (line : Nat) (entries : List (Node × Node))

/-- What stands for a value that is left out. -/
def Node.missing (line : Nat) : Node := .scalar line [] true

def scalar? (flow : Bool) (indent : Nat) (cur : Cursor) : Option (Node × Cursor) :=
  if cur.rest.head? = some '"' ∨ cur.rest.head? = some '\'' then
    (quoted? cur).map fun (text, after) => (.scalar cur.line text false, after)
  else if startsPlain flow cur.rest then
    (plain? flow indent cur).map fun (text, after) => (.scalar cur.line text true, after)
  else none

/-- Goes past one character and the gap after it. -/
def enter? (cur : Cursor) : Option Cursor := (cur.skip 1).skipGap? true false

mutual

/-- A node inside brackets. Fuel bounds the nodes that are read. -/
def flowNode? : Nat → Cursor → Option (Node × Cursor)
  | 0, _ => none
  | fuel + 1, cur =>
    if cur.atMarker then none
    else match cur.rest.head? with
      | some '[' => (enter? cur).bind (flowItems? fuel cur.line [])
      | some '{' => (enter? cur).bind (flowEntries? fuel cur.line [])
      | _ => scalar? true 0 cur

/-- The value after a colon, which may be left out. -/
def flowValue? (fuel : Nat) (cur : Cursor) : Option (Node × Cursor) :=
  match fuel with
  | 0 => none
  | fuel + 1 => do
    let value ← enter? cur
    if value.rest.head? = some ',' ∨ value.rest.head? = some ']' ∨ value.rest.head? = some '}' then
      some (.missing value.line, value)
    else flowNode? fuel value

/-- The items of a list in brackets, the earlier ones last first. An item may be a single
entry. -/
def flowItems? : Nat → Nat → List Node → Cursor → Option (Node × Cursor)
  | 0, _, _, _ => none
  | fuel + 1, line, items, cur =>
    if cur.rest.head? = some ']' then some (.list line items.reverse, cur.skip 1)
    else do
      let (node, after) ← flowNode? fuel cur
      let after ← after.skipGap? true false
      let (item, after) ←
        if after.rest.head? = some ':' ∧ after.line = cur.line then do
          let (value, after) ← flowValue? fuel after
          pure (Node.mapping cur.line [(node, value)], ← after.skipGap? true false)
        else pure (node, after)
      match after.rest.head? with
      | some ',' => (enter? after).bind (flowItems? fuel line (item :: items))
      | some ']' => some (.list line (item :: items).reverse, after.skip 1)
      | _ => none

/-- The entries of a mapping in brackets, the earlier ones last first. -/
def flowEntries? : Nat → Nat → List (Node × Node) → Cursor → Option (Node × Cursor)
  | 0, _, _, _ => none
  | fuel + 1, line, entries, cur =>
    if cur.rest.head? = some '}' then some (.mapping line entries.reverse, cur.skip 1)
    else do
      let (key, after) ←
        if cur.rest.head? = some ':' then pure (Node.missing cur.line, cur)
        else flowNode? fuel cur
      let after ← after.skipGap? true false
      let (value, after) ←
        if after.rest.head? = some ':' ∧ after.line = cur.line then do
          let (value, after) ← flowValue? fuel after
          pure (value, ← after.skipGap? true false)
        else pure (Node.missing after.line, after)
      match after.rest.head? with
      | some ',' => (enter? after).bind (flowEntries? fuel line ((key, value) :: entries))
      | some '}' => some (.mapping line ((key, value) :: entries).reverse, after.skip 1)
      | _ => none

end

/-- A scalar or a collection in brackets at a block indentation. -/
def atom? (fuel : Nat) (indent : Nat) (cur : Cursor) : Option (Node × Cursor) :=
  if cur.rest.head? = some '[' ∨ cur.rest.head? = some '{' then flowNode? fuel cur
  else scalar? false indent cur

/-- A key on one line, and the cursor behind its colon. -/
def key? (fuel : Nat) (indent : Nat) (cur : Cursor) : Option (Node × Cursor) :=
  if cur.atIndicator ':' then some (.missing cur.line, cur.skip 1)
  else do
    let (key, after) ← atom? fuel indent cur
    let after := after.skipBlanks
    if after.atIndicator ':' ∧ after.line = cur.line then some (key, after.skip 1) else none

mutual

/-- A node whose text is indented more than `parent`. Where `collections` is false, as behind
a colon on the same line, it cannot be a collection by indentation. A list may also stand at
column `listAt?`. Without text the node is missing. -/
def blockNode? : Nat → (parent : Int) → (listAt? : Option Nat) → (collections : Bool) → Cursor →
    Option (Node × Cursor)
  | 0, _, _, _, _ => none
  | fuel + 1, parent, listAt?, collections, cur =>
    let isItem := cur.atIndicator '-'
    if cur.atEnd || cur.atMarker then some (.missing cur.line, cur)
    else if (cur.column : Int) ≤ parent ∧ !(isItem && listAt? == some cur.column) then
      some (.missing cur.line, cur)
    else if isItem then
      if collections then blockItems? fuel cur.line cur.column [] cur else none
    else if cur.atIndicator '?' then none
    else
      let indent := (parent + 1).toNat
      match key? fuel indent cur with
      | some (key, after) =>
        if collections then blockEntries? fuel cur.line cur.column [] key after else none
      | none => do
        let (node, after) ← atom? fuel indent cur
        if after.skipBlanks.atIndicator ':' then none else some (node, after)

/-- The items of a list by indentation; the next dash comes next. -/
def blockItems? : Nat → (line column : Nat) → List Node → Cursor → Option (Node × Cursor)
  | 0, _, _, _, _ => none
  | fuel + 1, line, column, items, cur => do
    let item ← (cur.skip 1).skipGap? false true
    let (node, after) ← blockNode? fuel column none true item
    let next ← after.skipGap? false false
    if next.column = column ∧ next.atIndicator '-' ∧ !next.atMarker ∧ !next.atEnd then
      blockItems? fuel line column (node :: items) next
    else if column < next.column ∧ !next.atEnd then none
    else some (.list line (node :: items).reverse, next)

/-- The entries of a mapping by indentation; the value of `key` comes next. -/
def blockEntries? : Nat → (line column : Nat) → List (Node × Node) → Node → Cursor →
    Option (Node × Cursor)
  | 0, _, _, _, _, _ => none
  | fuel + 1, line, column, entries, key, cur => do
    let value ← cur.skipGap? false false
    let (node, after) ← blockNode? fuel column (some column) (value.line != cur.line) value
    let next ← after.skipGap? false false
    if next.atEnd ∨ next.atMarker ∨ next.column < column then
      some (.mapping line ((key, node) :: entries).reverse, next)
    else if next.column = column then do
      let (key', after) ← key? fuel (column + 1) next
      blockEntries? fuel line column ((key, node) :: entries) key' after
    else none

end

/-- What a file holds: no document at all, or its first document; `none` when the text is not
well formed. -/
def firstDocument? (bytes : Bytes) : Option (Option Node) := do
  let cs ← characters? bytes
  let fuel := 4 * (cs.length + 4)
  let cur ← (Cursor.ofText cs).skipGap? false true
  if cur.atEnd then pure none
  else if cur.atMarker ∧ !cur.atDocumentStart then failure
  else
    let content ← if cur.atMarker then (cur.skip 3).skipGap? false false else pure cur
    let (node, after) ←
      blockNode? fuel (-1) none (!cur.atMarker || content.line != cur.line) content
    let next ← after.skipGap? false false
    if next.rest.head? = some '@' ∨ next.rest.head? = some '`' then failure
    else pure (some node)

end TapeLang.Yaml
