import CommandGrammar.Yaml.Fault
import CommandGrammar.Yaml.Timestamp
import CommandGrammar.Yaml.Token

/-!
# Documents from tokens

The tokens of a text are put together to the one document that they stand for, a graph of nodes. Node by node
the properties are read, and the tag is settled. A node may have a name, which no other node of the document
has, and an alias is the node of that name once more; a collection has its name before its parts are read, so
it may have itself among them. A text without a document stands for nothing, and a text with two is malformed.
-/

namespace CommandGrammar.Yaml

/-! ## Nodes -/

/-- The number of a node in its graph. -/
abbrev NodeId := Nat

/-- A part of a document, with its tag settled. Its own parts go by their numbers. -/
inductive Node where
  | scalar (tag : Tag) (text : Spelled)
  | seq (tag : Tag) (items : List NodeId)
  | map (tag : Tag) (entries : List (NodeId × NodeId))
  deriving DecidableEq, Repr

namespace Node

/-- The tag of a node. -/
def tag : Node → Tag
  | .scalar tag _ | .seq tag _ | .map tag _ => tag

/-- The node with another tag. -/
def withTag (tag : Tag) : Node → Node
  | .scalar _ text => .scalar tag text
  | .seq _ items => .seq tag items
  | .map _ entries => .map tag entries

end Node

/-- The nodes of a document, by their numbers. -/
structure Graph where
  nodes : Array Node := #[]

namespace Graph

/-- The node with a number. -/
def node (g : Graph) (id : NodeId) : Node := g.nodes.getD id (.scalar .null (.text ""))

/-- The graph with another node at a number. -/
def put (g : Graph) (id : NodeId) (n : Node) : Graph := ⟨g.nodes.setIfInBounds id n⟩

/-- The graph with one more node. -/
def push (g : Graph) (n : Node) : Graph := ⟨g.nodes.push n⟩

end Graph

/-! ## Readers of tokens -/

/-- How many calls may be open at a time; where exactly the stack ends depends on who asks for the reading. -/
def openCalls : Nat := 960

/-- How many collections may be open at a time: reading the parts of one takes two calls. -/
def openCollections : Nat := openCalls / 2

/--
What is left to read, the nodes read so far, those of them that have names, what the handles of tags stand for,
and the number of collections that are open.
-/
structure Reading where
  tokens : List Token
  fault : Option Fault
  graph : Graph := {}
  named : List (String × NodeId) := []
  handles : List (String × String) := []
  level : Nat := 0

/-- A reader of tokens. -/
abbrev Read := StateT Reading (Except Fault)

namespace Read

/-- The text is malformed here, unless its tokens ended before. -/
def refuse {α : Type} : Read α := do
  let r ← get
  throw (if r.tokens.isEmpty then r.fault.getD .malformed else .malformed)

/-- The token that stands here. -/
def peek : Read Token := do
  match (← get).tokens with
  | t :: _ => return t
  | [] => refuse

/-- Goes on to the next token. -/
def advance : Read Unit := modify fun r => { r with tokens := r.tokens.tail }

/-- Goes on if a token stands here. -/
def accept (t : Token) : Read Bool := do
  if (← peek) = t then
    advance
    return true
  else return false

/-- Goes on if a token stands here, and else refuses the text. -/
def require (t : Token) : Read Unit := do
  if !(← accept t) then refuse

/-- Whether one of the tokens stands here. -/
def atAny (ts : List Token) : Read Bool := return ts.contains (← peek)

end Read

open Read

/-! ## Properties -/

/-- The anchor that stands here, if there is one. -/
def anchor? : Read (Option String) := do
  match ← peek with
  | .anchor name =>
    advance
    return some name
  | _ => return none

/-- The tag that stands here, if there is one. -/
def writtenTag? : Read (Option WrittenTag) := do
  match ← peek with
  | .tag t =>
    advance
    return some t
  | _ => return none

/-- The anchor and the tag that stand here, in either order. -/
def properties : Read (Option String × Option WrittenTag) := do
  match ← anchor? with
  | some name => return (some name, ← writtenTag?)
  | none =>
    match ← writtenTag? with
    | some t => return (← anchor?, some t)
    | none => return (none, none)

/-- The full text of a tag. -/
def tagText (t : WrittenTag) : Read String := do
  match t.handle with
  | none => return t.suffix
  | some handle =>
    match (← get).handles.lookup handle with
    | some text => return text ++ t.suffix
    | none => refuse

/-- The tag of a node, when it is written and does not leave the type open. -/
def tag? (t : Option WrittenTag) : Read (Option Tag × Bool) := do
  match t with
  | none => return (none, false)
  | some t =>
    let text ← tagText t
    return if text = "!" then (none, true) else (some (.ofText text), false)

/-! ## Nodes from tokens -/

/-- A further node, whose name must be new. -/
def add (name : Option String) (n : Node) : Read NodeId := do
  let r ← get
  let id := r.graph.nodes.size
  match name with
  | none => set { r with graph := r.graph.push n }
  | some name =>
    if (r.named.lookup name).isSome then throw .malformed
    set { r with graph := r.graph.push n, named := (name, id) :: r.named }
  return id

/-- The node that an alias stands for. -/
def aliased (name : String) : Read NodeId := do
  match (← get).named.lookup name with
  | some id => return id
  | none => throw .malformed

/-- The node of a missing value. -/
def missing : Read NodeId := add none (.scalar .null (.text ""))

/-- Reads what is in a collection. -/
def inside {α : Type} (parts : Read α) : Read α := do
  if openCollections ≤ (← get).level then throw .tooDeep
  modify fun r => { r with level := r.level + 1 }
  let a ← parts
  modify fun r => { r with level := r.level - 1 }
  return a

/-- A sequence of some items. It has its name before they are read. -/
def sequence (name : Option String) (tag : Tag) (items : Read (List NodeId)) : Read NodeId := do
  let id ← add name (.seq tag [])
  let ids ← inside items
  modify fun r => { r with graph := r.graph.put id (.seq tag ids) }
  return id

/-- A mapping of some entries. It has its name before they are read. -/
def mapping (name : Option String) (tag : Tag) (entries : Read (List (NodeId × NodeId))) : Read NodeId := do
  let id ← add name (.map tag [])
  let ids ← inside entries
  modify fun r => { r with graph := r.graph.put id (.map tag ids) }
  return id

mutual

/--
A node. Block collections are read only where `block` allows them, and items without an opening token only
where `indentless` does.
-/
def node (block indentless : Bool) : (fuel : Nat) → Read NodeId
  | 0 => refuse
  | fuel + 1 => do
    if let .alias name ← peek then
      advance
      return ← aliased name
    let (name, written) ← properties
    let (tag, open_) ← tag? written
    let t ← peek
    if indentless && t == .blockEntry then
      return ← sequence name (tag.getD .seq) (items fuel)
    match t with
    | .scalar text plain =>
      advance
      let implicit := if (plain && written.isNone) || open_ then
        implicitTag Timestamp.isImplicit text.shown else .str
      add name (.scalar (tag.getD implicit) text)
    | .flowSequenceStart =>
      advance
      sequence name (tag.getD .seq) (flowItems true fuel)
    | .flowMappingStart =>
      advance
      mapping name (tag.getD .map) (flowEntries true fuel)
    | t =>
      if block && t == .blockSequenceStart then
        advance
        sequence name (tag.getD .seq) (do let ids ← items fuel; require .blockEnd; return ids)
      else if block && t == .blockMappingStart then
        advance
        mapping name (tag.getD .map) (blockEntries fuel)
      else if name.isSome || written.isSome then
        add name (.scalar (tag.getD .null) (.text ""))
      else refuse

/-- A node, unless one of the tokens stands here: then a missing value. -/
def nodeUnless (stops : List Token) (block indentless : Bool) : (fuel : Nat) → Read NodeId
  | 0 => refuse
  | fuel + 1 => do if ← atAny stops then missing else node block indentless fuel

/-- The items of a block sequence, each behind its hyphen. -/
def items : (fuel : Nat) → Read (List NodeId)
  | 0 => refuse
  | fuel + 1 => do
    if !(← accept .blockEntry) then return []
    let id ← nodeUnless [.blockEntry, .key, .value, .blockEnd] true false fuel
    return id :: (← items fuel)

/-- The entries of a block mapping up to its end. -/
def blockEntries : (fuel : Nat) → Read (List (NodeId × NodeId))
  | 0 => refuse
  | fuel + 1 => do
    if ← accept .blockEnd then return []
    require .key
    let k ← nodeUnless [.key, .value, .blockEnd] true true fuel
    let v ←
      if ← accept .value then nodeUnless [.key, .value, .blockEnd] true true fuel
      else missing
    return (k, v) :: (← blockEntries fuel)

/-- A key with its value inside brackets, up to a comma or the closing bracket. -/
def flowEntry (close : Token) : (fuel : Nat) → Read (NodeId × NodeId)
  | 0 => refuse
  | fuel + 1 => do
    let k ← nodeUnless [.value, .flowEntry, close] false false fuel
    let v ←
      if ← accept .value then nodeUnless [.flowEntry, close] false false fuel
      else missing
    return (k, v)

/-- The items of a flow sequence up to its end. A key makes an item a mapping with one entry. -/
def flowItems (first : Bool) : (fuel : Nat) → Read (List NodeId)
  | 0 => refuse
  | fuel + 1 => do
    if ← accept .flowSequenceEnd then return []
    if !first then require .flowEntry
    if ← accept .key then
      let id ← mapping none .map (do return [← flowEntry .flowSequenceEnd fuel])
      return id :: (← flowItems false fuel)
    if ← accept .flowSequenceEnd then return []
    let id ← node false false fuel
    return id :: (← flowItems false fuel)

/-- The entries of a flow mapping up to its end. -/
def flowEntries (first : Bool) : (fuel : Nat) → Read (List (NodeId × NodeId))
  | 0 => refuse
  | fuel + 1 => do
    if ← accept .flowMappingEnd then return []
    if !first then require .flowEntry
    if ← accept .key then
      let e ← flowEntry .flowMappingEnd fuel
      return e :: (← flowEntries false fuel)
    if ← accept .flowMappingEnd then return []
    let k ← node false false fuel
    return (k, ← missing) :: (← flowEntries false fuel)

end

/-! ## Documents -/

/-- The handles that need no directive. -/
def defaultHandles : List (String × String) := [("!", "!"), ("!!", Tag.namespacePart)]

/-- The directives in front of a document, at most one version and one meaning for each handle. -/
def directives : (fuel : Nat) → (versioned : Bool) → List (String × String) →
    Read (List (String × String))
  | 0, _, _ => refuse
  | fuel + 1, versioned, handles => do
    match ← peek with
    | .directive (.version major) =>
      advance
      if versioned ∨ major ≠ 1 then throw .malformed
      directives fuel true handles
    | .directive (.tag handle text) =>
      advance
      if (handles.lookup handle).isSome then throw .malformed
      directives fuel versioned ((handle, text) :: handles)
    | .directive .other =>
      advance
      directives fuel versioned handles
    | _ => return handles

/-- Goes on behind the marks that end documents. -/
def skipEnds : (fuel : Nat) → Read Unit
  | 0 => refuse
  | fuel + 1 => do if ← accept .documentEnd then skipEnds fuel

/-- The one document of a text, or a missing value if there is none. -/
def document (fuel : Nat) : Read NodeId := do
  let t ← peek
  let isDirective := match t with | .directive _ => true | _ => false
  let root ←
    if isDirective || t == .documentStart then do
      let handles ← directives fuel false []
      modify fun r => { r with handles := handles ++ defaultHandles }
      require .documentStart
      if let .directive _ ← peek then missing
      else nodeUnless [.documentStart, .documentEnd, .streamEnd] true false fuel
    else if t == .streamEnd then missing
    else do
      modify fun r => { r with handles := defaultHandles }
      node true false fuel
  skipEnds fuel
  require .streamEnd
  return root

/--
The nodes of the document that tokens stand for, and the number of the one that is all of it; the fault is what
is wrong behind the last token.
-/
def compose (tokens : List Token) (fault : Option Fault) : Except Fault (Graph × NodeId) := do
  let fuel := 4 * tokens.length + 8
  let (root, r) ← (document fuel).run { tokens, fault }
  return (r.graph, root)

end CommandGrammar.Yaml
