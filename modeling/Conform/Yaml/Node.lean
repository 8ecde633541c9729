import Conform.Table
import Conform.Yaml.Token

/-!
# Nodes

The tree that the tokens of one document make up. An alias holds the node it
stands for, together with the number of aliases that have to be followed to
see all of it.
-/

namespace Conform

namespace Yaml

inductive Node where
  | scalar (text : String) (plain : Bool) (tag : Option String)
  | list (items : List Node) (tag : Option String)
  | table (entries : List (Node × Node)) (tag : Option String)
  | link (target : Node) (jumps : Nat)

namespace Node

/-- A scalar that is not written. -/
def missing : Node := scalar "" true none

mutual

/-- How many aliases have to be followed to see all of a node. -/
def jumps : Node → Nat
  | scalar _ _ _ => 0
  | list items _ => jumpsList items
  | table entries _ => jumpsTable entries
  | link _ n => n

def jumpsList : List Node → Nat
  | [] => 0
  | n :: rest => n.jumps + jumpsList rest

def jumpsTable : List (Node × Node) → Nat
  | [] => 0
  | (k, v) :: rest => k.jumps + v.jumps + jumpsTable rest

end

mutual

/-- The size of a node as it is written: one for a scalar or an alias, two more for a collection. -/
def size : Node → Nat
  | scalar _ _ _ => 1
  | list items _ => sizeList items + 2
  | table entries _ => sizeTable entries + 2
  | link _ _ => 1

def sizeList : List Node → Nat
  | [] => 0
  | n :: rest => n.size + sizeList rest

def sizeTable : List (Node × Node) → Nat
  | [] => 0
  | (k, v) :: rest => k.size + v.size + sizeTable rest

end

end Node

/-- Reading nodes: the tokens to come, and the anchors so far. -/
structure Composer where
  tokens : List Token
  /-- The node of each anchor, latest first; none while it is still open. -/
  anchors : List (String × Option Node) := []

abbrev Compose := StateT Composer Option

namespace Compose

def peek : Compose (Option Token) := do return (← get).tokens.head?

def skip : Compose Unit := modify fun c => { c with tokens := c.tokens.drop 1 }

/-- Whether the next token is one of a list; the end of the text is none of them. -/
def nextIs (ts : List Token) : Compose Bool := do
  match ← peek with
  | some t => return ts.contains t
  | none => return false

/-- Store the node of an anchor, none while it is open. -/
def store (anchor : Option String) (node : Option Node) : Compose Unit :=
  match anchor with
  | some name => modify fun c => { c with anchors := (name, node) :: c.anchors }
  | none => return ()

/-- Read what an anchor stands for; up to its end the anchor is open. -/
def anchored (anchor : Option String) (read : Compose Node) : Compose Node := do
  store anchor none
  let node ← read
  store anchor (some node)
  return node

/-- The node that an alias stands for; it must be complete. -/
def resolve (name : String) : Compose Node := do
  match Table.get? name (← get).anchors with
  | some (some node) => return .link node (node.jumps + 1)
  | _ => failure

/-- The anchor and the tag before a node, in either order. -/
def properties : Compose (Option String × Option String) := do
  match ← peek with
  | some (.anchor name) =>
    skip
    match ← peek with
    | some (.tag text) => skip; return (some name, some text)
    | _ => return (some name, none)
  | some (.tag text) =>
    skip
    match ← peek with
    | some (.anchor name) => skip; return (some name, some text)
    | _ => return (none, some text)
  | _ => return (none, none)

mutual

/--
Read a node, in at most so many steps. Block collections may stand where
`block` is set, and list items at the indentation of their table where
`indentless` is.
-/
def node (block indentless : Bool) : Nat → Compose Node
  | 0 => failure
  | steps + 1 => do
    match ← peek with
    | some (.link name) => skip; resolve name
    | _ =>
      let (anchor, tag) ← properties
      let next ← peek
      if indentless && next = some .item then
        anchored anchor (do return .list (← indentlessItems steps) tag)
      else
        match next with
        | some (.scalar text plain) => skip; anchored anchor (return .scalar text plain tag)
        | some .openFlowList =>
          skip
          anchored anchor (do return .list (← flowItems true steps) tag)
        | some .openFlowTable =>
          skip
          anchored anchor (do return .table (← flowEntries true steps) tag)
        | _ =>
          if block && next = some .openBlockList then
            skip
            anchored anchor (do return .list (← blockItems steps) tag)
          else if block && next = some .openBlockTable then
            skip
            anchored anchor (do return .table (← blockEntries steps) tag)
          else if anchor.isSome || tag.isSome then
            anchored anchor (return .scalar "" true tag)
          else failure

/-- A node, or a missing scalar where one of some tokens comes next. -/
def nodeUnless (block indentless : Bool) (ends : List Token) : Nat → Compose Node
  | 0 => failure
  | steps + 1 => do
    if ← nextIs ends then return Node.missing else node block indentless steps

def blockItems : Nat → Compose (List Node)
  | 0 => failure
  | steps + 1 => do
    match ← peek with
    | some .item =>
      skip
      let n ← nodeUnless true false [.item, .closeBlock] steps
      return n :: (← blockItems steps)
    | some .closeBlock => skip; return []
    | _ => failure

def indentlessItems : Nat → Compose (List Node)
  | 0 => failure
  | steps + 1 => do
    match ← peek with
    | some .item =>
      skip
      let n ← nodeUnless true false [.item, .key, .value, .closeBlock] steps
      return n :: (← indentlessItems steps)
    | _ => return []

def blockEntries : Nat → Compose (List (Node × Node))
  | 0 => failure
  | steps + 1 => do
    match ← peek with
    | some .key =>
      skip
      let k ← nodeUnless true true [.key, .value, .closeBlock] steps
      let v ← if ← nextIs [.value] then do
          skip
          nodeUnless true true [.key, .value, .closeBlock] steps
        else pure Node.missing
      return (k, v) :: (← blockEntries steps)
    | some .closeBlock => skip; return []
    | _ => failure

/-- The value behind a key in brackets, up to one of some tokens. -/
def flowValue (ends : List Token) : Nat → Compose Node
  | 0 => failure
  | steps + 1 => do
    if ← nextIs [.value] then
      skip
      nodeUnless false false ends steps
    else return Node.missing

def flowItems (first : Bool) : Nat → Compose (List Node)
  | 0 => failure
  | steps + 1 => do
    if ← nextIs [.closeFlowList] then skip; return []
    if !first then
      if ← nextIs [.comma] then skip else failure
    match ← peek with
    | some .closeFlowList => skip; return []
    | some .key =>
      skip
      let k ← if ← nextIs [.value, .comma, .closeFlowList] then do
          skip
          pure Node.missing
        else node false false steps
      let v ← flowValue [.comma, .closeFlowList] steps
      return .table [(k, v)] none :: (← flowItems false steps)
    | _ =>
      let n ← node false false steps
      return n :: (← flowItems false steps)

def flowEntries (first : Bool) : Nat → Compose (List (Node × Node))
  | 0 => failure
  | steps + 1 => do
    if ← nextIs [.closeFlowTable] then skip; return []
    if !first then
      if ← nextIs [.comma] then skip else failure
    match ← peek with
    | some .closeFlowTable => skip; return []
    | some .key =>
      skip
      let k ← nodeUnless false false [.value, .comma, .closeFlowTable] steps
      let v ← flowValue [.comma, .closeFlowTable] steps
      return (k, v) :: (← flowEntries false steps)
    | _ =>
      let k ← node false false steps
      return (k, Node.missing) :: (← flowEntries false steps)

end

/-- Tokens that end an empty document. -/
def documentEnds : List Token := [.version, .documentStart, .documentEnd]

/-- The content of a document; nothing at all is a missing scalar. -/
def content (steps : Nat) : Compose Node := do
  match ← peek with
  | none => return Node.missing
  | some _ => nodeUnless true false documentEnds steps

def skipEnds : Nat → Compose Unit
  | 0 => return ()
  | steps + 1 => do if ← nextIs [.documentEnd] then skip; skipEnds steps

/-- The only document of a text. -/
def document (steps : Nat) : Compose Node := do
  if ← nextIs [.version] then
    skip
    unless ← nextIs [.documentStart] do failure
  let explicit ← nextIs [.documentStart]
  if explicit then skip
  let n ← match ← peek with
    | none => pure Node.missing
    | some _ => if explicit then content steps else node true false steps
  skipEnds steps
  match ← peek with
  | none => return n
  | some _ => failure

end Compose

/-- The tree of a text that holds one document. -/
def Node.ofTokens? (tokens : List Token) : Option Node :=
  (Compose.document (3 * tokens.length + 3)).run' { tokens }

end Yaml

end Conform
