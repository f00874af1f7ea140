import CommandGrammar.Document.Check
import CommandGrammar.Yaml.Composition
import CommandGrammar.Yaml.Scalar
import CommandGrammar.Yaml.Token.Stream

/-!
# The value of a YAML text

Each node of a document is made into one object. Scalars are made at once, by their tags. A collection is there
at once as well, but what is in it is made only when its turn comes: `complete` takes the collections in the
order in which they were met, so a collection may hold itself, and of several faults the one met first counts.

The keys of a mapping must be scalars. Entries under a merge key are taken over from other mappings, in front
of the mapping's own. `flatten` changes the nodes themselves, so it shows wherever such a node stands.

In the end the object of the whole document is looked at from outside, as deep as the check of a document
looks.
-/

namespace CommandGrammar.Yaml

open Document

/-! ## Objects -/

/-- What a node is made into. Other objects go by the numbers of their nodes. -/
inductive Object where
  | scalar (s : Scalar)
  /-- The one not-a-number that its word stands for. -/
  | nan
  /-- A text with halves of surrogate pairs among its characters. -/
  | broken (codes : List Nat)
  | seq (items : List NodeId)
  | pairs (items : List (NodeId × NodeId))
  | map (entries : List (NodeId × NodeId))
  | set (members : List NodeId)
  deriving DecidableEq, Repr

/--
What a text with halves of surrogate pairs looks like from outside: bytes that encode no text. A document may have
neither of the two anywhere.
-/
def noText : Scalar := .bytes [0xFF]

/-- Where a document has a text or a truth value, what is no text is refused. -/
theorem checks_noText :
    checkText (.scalar noText) = .defect .undecodable ∧ checkBool (.scalar noText) = .defect .unreadableBool :=
  ⟨rfl, rfl⟩

/-- The objects of a document that are made, by the numbers of their nodes. -/
structure Objects where
  made : Array (Option Object)

namespace Objects

/-- The object of a node, if it is made. Beyond the nodes of the document there is nothing to make. -/
def object? (o : Objects) (id : NodeId) : Option Object := o.made.getD id (some (.scalar .null))

/-- The scalar that the object of a node is, if it is one. Only scalars may be keys. -/
def scalar? (o : Objects) (id : NodeId) : Option Scalar :=
  match o.object? id with
  | some (.scalar s) => some s
  | some .nan => some (.float .nan)
  | some (.broken _) => some noText
  | _ => none

/-- Whether two nodes are the same key: the same object, or equal ones. -/
def sameKey (o : Objects) (a b : NodeId) : Bool :=
  a == b ||
    match o.object? a, o.object? b with
    | some .nan, some .nan => true
    | some (.broken codes), some (.broken others) => codes == others
    | some (.broken _), _ | _, some (.broken _) => false
    | _, _ =>
      match o.scalar? a, o.scalar? b with
      | some s, some t => s.sameKey t
      | _, _ => false

/-- The objects with one more. -/
def put (o : Objects) (id : NodeId) (object : Object) : Objects := ⟨o.made.setIfInBounds id (some object)⟩

/-- The entries of a mapping with one more; a key that is present keeps its place and takes the value. -/
def putEntry (o : Objects) (key value : NodeId) : List (NodeId × NodeId) → List (NodeId × NodeId)
  | [] => [(key, value)]
  | e :: rest => if o.sameKey e.1 key then (e.1, value) :: rest else e :: putEntry o key value rest

end Objects

/-! ## Scalars -/

/-- The text of a scalar; a mapping has the text of its special key for that. -/
def scalarText (g : Graph) : (calls : Nat) → NodeId → Except Fault Spelled
  | 0, _ => .error .tooDeep
  | calls + 1, id =>
    match g.node id with
    | .scalar _ text => .ok text
    | .map _ entries =>
      match entries.find? fun e => (g.node e.1).tag = .value with
      | some e => scalarText g calls e.2
      | none => .error .malformed
    | .seq .. => .error .malformed

/-- The object of a node that is no collection by its tag. Of a point in time the node itself must be a scalar. -/
def scalarObject (g : Graph) (id : NodeId) : Except Fault Object := do
  let spelled := scalarText g openCalls id
  let text := spelled.map Spelled.shown
  match (g.node id).tag with
  | .null =>
    let _ ← text
    return .scalar .null
  | .bool => return .scalar (.bool (← boolOf (← text)))
  | .int => return .scalar (.int (← intOf (← text)))
  | .float =>
    let text ← text
    if isNanWord text then return .nan else return .scalar (.float (← floatOf text))
  | .str =>
    match ← spelled with
    | .text s => return .scalar (.text s)
    | .broken codes => return .broken codes
  | .binary => return .scalar (.bytes (← bytesOf (← text)))
  | .timestamp =>
    let text ← text
    match g.node id with
    | .scalar .. => return .scalar (← timeOf text)
    | _ => throw .timeOfMapping
  | _ => throw .malformed

/-! ## Making objects -/

/-- The nodes, the objects made of them, and the collections with nothing in them so far. -/
structure Building where
  graph : Graph
  objects : Objects
  waiting : List NodeId := []

/-- A step that makes objects. -/
abbrev Build := StateT Building (Except Fault)

namespace Build

/-- The node with a number. -/
def nodeOf (id : NodeId) : Build Node := return (← get).graph.node id

/-- The entries of a node that is a mapping. -/
def entriesOf (id : NodeId) : Build (List (NodeId × NodeId)) := do
  match ← nodeOf id with
  | .map _ entries => return entries
  | _ => return []

/-- Gives a mapping other entries. -/
def setEntries (id : NodeId) (entries : List (NodeId × NodeId)) : Build Unit := do
  let n ← nodeOf id
  modify fun b => { b with graph := b.graph.put id (.map n.tag entries) }

/-- Makes a node into an object. -/
def make (id : NodeId) (o : Object) : Build Unit :=
  modify fun b => { b with objects := b.objects.put id o }

/-- Makes a node into a collection, for the time being without anything in it. -/
def promise (id : NodeId) (o : Object) : Build Unit := do
  make id o
  modify fun b => { b with waiting := b.waiting ++ [id] }

end Build

open Build

/-- Makes a node into an object, unless it has been. -/
def construct (id : NodeId) : Build Unit := do
  let b ← get
  if (b.objects.object? id).isSome then return
  match (b.graph.node id).tag with
  | .seq => promise id (.seq [])
  | .omap | .pairs => promise id (.pairs [])
  | .map => promise id (.map [])
  | .set => promise id (.set [])
  | _ => make id (← scalarObject b.graph id)

/-! ## Merge keys -/

/-- Keys written with the sign for a default value are the text of that sign from now on. -/
def settleKeys (entries : List (NodeId × NodeId)) : Build Unit :=
  modify fun b =>
    { b with
      graph := entries.foldl (fun g e =>
        let key := g.node e.1
        if key.tag = .value then g.put e.1 (key.withTag .str) else g) b.graph }

/-- The entries that the value of a merge key stands for; of several mappings the earlier ones win. -/
def mergeSources (flatten : NodeId → Build (List (NodeId × NodeId))) (value : NodeId) :
    Build (List (NodeId × NodeId)) := do
  match ← nodeOf value with
  | .map .. => flatten value
  | .seq _ items => return (← items.mapM flatten).reverse.flatten
  | .scalar .. => throw .malformed

/--
Takes the merge keys out of a mapping, from a place among its entries on, and returns the entries that they
stand for. The entries are looked at anew behind each merge key, since a mapping may be merged into itself.
-/
def takeMerges (flatten : NodeId → Build (List (NodeId × NodeId))) (id : NodeId) :
    (merges place : Nat) → Build (List (NodeId × NodeId))
  | 0, _ => return []
  | merges + 1, place => do
    let es ← entriesOf id
    let g := (← get).graph
    let passed := (es.drop place).takeWhile fun e => (g.node e.1).tag ≠ .merge
    settleKeys passed
    let place := place + passed.length
    match es.drop place with
    | [] => return []
    | (_, value) :: rest =>
      setEntries id (es.take place ++ rest)
      let sources ← mergeSources flatten value
      return sources ++ (← takeMerges flatten id merges place)

/-- The entries of a mapping, in which those under its merge keys have been put in front. -/
def flatten : (calls : Nat) → NodeId → Build (List (NodeId × NodeId))
  | 0, _ => throw .tooDeep
  | calls + 1, id => do
    match ← nodeOf id with
    | .map _ es =>
      let merged ← takeMerges (flatten calls) id (es.length + 1) 0
      if !merged.isEmpty then setEntries id (merged ++ (← entriesOf id))
      entriesOf id
    | _ => throw .malformed

/-! ## Collections -/

/-- Makes the keys and values of a mapping. Of equal keys the first one stays, with the last value. -/
def mapEntries (id : NodeId) : Build (List (NodeId × NodeId)) := do
  (← flatten openCalls id).foldlM (fun before e => do
    construct e.1
    if ((← get).objects.scalar? e.1).isNone then throw .malformed
    construct e.2
    return (← get).objects.putEntry e.1 e.2 before) []

/-- Makes the key and the value of an item that is a mapping with one entry. -/
def pair (item : NodeId) : Build (NodeId × NodeId) := do
  match ← nodeOf item with
  | .map _ [e] =>
    construct e.1
    construct e.2
    return e
  | _ => throw .malformed

/-- Makes what is in a collection. -/
def fill (id : NodeId) : Build Unit := do
  let n ← nodeOf id
  match n.tag, n with
  | .seq, .seq _ items =>
    items.forM construct
    make id (.seq items)
  | .omap, .seq _ items | .pairs, .seq _ items => make id (.pairs (← items.mapM pair))
  | .map, _ => make id (.map (← mapEntries id))
  | .set, _ => make id (.set ((← mapEntries id).map Prod.fst))
  | _, _ => throw .malformed

/-- Makes what is in the collections that wait, one after another. -/
def complete : (fuel : Nat) → Build Unit
  | 0 => return
  | fuel + 1 => do
    let b ← get
    match b.waiting with
    | [] => return
    | id :: rest =>
      set { b with waiting := rest }
      fill id
      complete fuel

/-- All nodes of a document, and no object made. -/
def Building.start (g : Graph) : Building :=
  { graph := g, objects := ⟨Array.replicate g.nodes.size none⟩ }

/-- Makes the object of a node with all that is in it. A node waits once at most. -/
def constructAll (root : NodeId) (size : Nat) : Build Unit := do
  construct root
  complete size

/-- The objects of a document. -/
def objects (g : Graph) (root : NodeId) : Except Fault Objects := do
  let (_, b) ← (constructAll root g.nodes.size).run (.start g)
  return b.objects

/-! ## Values -/

/-- An object as it looks from outside, down to a number of levels. -/
def Objects.view (o : Objects) : (levels : Nat) → NodeId → Value
  | 0, _ => .null
  | levels + 1, id =>
    match o.object? id with
    | some (.scalar s) => .scalar s
    | some .nan => .scalar (.float .nan)
    | some (.broken _) => .scalar noText
    | some (.seq items) => .seq (items.map (o.view levels))
    | some (.pairs items) =>
      .seq (items.map fun e =>
        match levels with
        | 0 => .null
        | levels + 1 => .seq [o.view levels e.1, o.view levels e.2])
    | some (.map entries) => .map (entries.map fun e => ((o.scalar? e.1).getD .null, o.view levels e.2))
    | some (.set members) => .set (members.map fun id => (o.scalar? id).getD .null)
    | none => .null

/-- A reader of YAML: the value that a text stands for, or what is wrong with the text. -/
abbrev Reader := List Char → Except Fault Value

/-- Whether a character may occur in a YAML text at all. -/
def isAllowed (c : Char) : Bool :=
  let code := c.toNat
  c == '\t' || c == '\n' || c == '\r' || c == '\x85' || (0x20 ≤ code && code ≤ 0x7E)
    || (0xA0 ≤ code && code != 0xFFFE && code != 0xFFFF)

/-- The value that a text stands for. -/
def read : Reader := fun text => do
  if !text.all isAllowed then throw .malformed
  let (ts, fault) := tokens text
  let (g, root) ← compose ts fault
  return (← objects g root).view levels root

end CommandGrammar.Yaml
