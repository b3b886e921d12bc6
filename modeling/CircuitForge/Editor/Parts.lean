/-
Adding, removing and copying parts: `editor-core/src/document/parts.ts`.
-/
import CircuitForge.Editor.Nets

namespace CircuitForge

open Js

/-- `isVariableArity`. -/
def isVariableArity (type : ComponentType) : Bool := type.pins.length = 0

/-- `isPlaceablePart`. -/
def isPlaceablePart (type : ComponentType) : Bool := type ≠ .ground

variable [Runtime]

structure NewPart where
  type : ComponentType
  designator : Option Text := none
  value : Option Text := none
  model : Option Text := none
  catalog : Catalog := {}
  pins : Option (List Text) := none

/-- The `n`th designator a type tries. -/
def designatorAt (letter : Char) (n : Nat) : Text := letter :: Nat.toDigits 10 (n + 1)

/-- `nextDesignator`: free as a designator and, in lower case, as an id. -/
def nextDesignator (circuit : CircuitJson) (type : ComponentType) : Option Text :=
  type.spicePrefix.map fun letter =>
    let names := circuit.components.map fun c => Runtime.upper c.designator
    let ids := circuit.components.map Component.id
    designatorAt letter (FirstFree.searchBoth names ids (designatorAt letter)
      (fun n => Runtime.lower (designatorAt letter n)) (names.length + ids.length) 0)

/-- `freshNets`: each net takes its id and its name out of the race. -/
def freshNets (ids names : List Text) : Nat → List Net
  | 0 => []
  | count + 1 =>
    let i := freshIndex ids names
    { id := freshId i, name := freshName i } ::
      freshNets (freshId i :: ids) (Runtime.lower (freshName i) :: names) count

/-- The designator asked for, or the next free one. -/
def designatorFor (circuit : CircuitJson) (spec : NewPart) : Text :=
  trim ((spec.designator.orElse fun _ => nextDesignator circuit spec.type).getD [])

/-- The nets of a new part, one for each pin. -/
def netsFor (circuit : CircuitJson) (pins : List Text) : List Net :=
  freshNets (circuit.nets.map Net.id) (takenNames circuit) pins.length

def newComponent (spec : NewPart) (designator : Text) (pins : List Text) (nets : List Net) :
    Component where
  id := Runtime.lower designator
  type := spec.type
  designator := designator
  value := spec.value
  model := spec.model
  catalog := spec.catalog
  pins := List.zipWith (fun pinId net => ⟨pinId, Net.id net⟩) pins nets

/-- The document with one more part. -/
def withPart (circuit : CircuitJson) (component : Component) (nets : List Net) : CircuitJson :=
  { circuit with
    components := circuit.components ++ [component]
    nets := circuit.nets ++ nets }

def addComponent (circuit : CircuitJson) (spec : NewPart) : EditResult CircuitJson :=
  if !spec.type.isKnown then
    .refused .invalidCharacters ("\"".toList ++ spec.type.name ++ "\" is not a component type.".toList)
  else if spec.pins.isNone && isVariableArity spec.type then
    .refused .invalidCharacters ("A ".toList ++ spec.type.name ++
      (" has no fixed pin list — its pins are authored to match its own port order, so it cannot " ++
        "be created blank. Add it through the design, not the part palette.").toList)
  else
    let pins := spec.pins.getD spec.type.pins
    if pins.length = 0 then .refused .empty "A part needs at least one pin.".toList
    else if ¬ pins.Nodup then .refused .invalidCharacters "A pin is named twice.".toList
    else
      match (if spec.pins.isSome && !isVariableArity spec.type then
          pins.find? fun id => id ∉ spec.type.pins
        else none) with
      | some stray => .refused .invalidCharacters
          ("\"".toList ++ stray ++ "\" is not a pin of a ".toList ++ spec.type.name ++ ".".toList)
      | none =>
        let designator := designatorFor circuit spec
        if designator.length = 0 then
          .refused .empty "No designator was given and none could be derived.".toList
        else if !designatorRe.accepts designator then
          .refused .invalidCharacters
            ("\"".toList ++ designator ++ "\" is not a valid designator.".toList)
        else
          match circuit.components.find? fun c =>
              Runtime.lower c.designator = Runtime.lower designator with
          | some clash =>
            .refused .duplicateDesignator (clash.designator ++ " already exists.".toList)
          | none =>
            if circuit.components.any (·.id = Runtime.lower designator) then
              .refused .duplicateDesignator ("A component with id \"".toList ++
                Runtime.lower designator ++ "\" already exists.".toList)
            else
              let nets := netsFor circuit pins
              .changed (withPart circuit (newComponent spec designator pins nets) nets)
                (some (designator ++ " added with ".toList ++ Nat.toDigits 10 pins.length ++
                  " unconnected pin(s) (".toList ++ join ", ".toList (nets.map Net.name) ++
                  ").".toList)) [] []

def deleteComponent (circuit : CircuitJson) (componentId : Text) : EditResult CircuitJson :=
  match circuit.components.find? (·.id = componentId) with
  | none => .refused .noSuchComponent
      ("No component with id \"".toList ++ componentId ++ "\".".toList)
  | some target =>
    let remaining := circuit.components.filter (·.id ≠ componentId)
    let stillUsed := remaining.flatMap fun c => c.pins.map PinConnection.netId
    let touched := target.pins.map PinConnection.netId
    let orphaned := circuit.nets.filter fun n => n.id ∈ touched ∧ n.id ∉ stillUsed
    .changed
      { circuit with
        components := remaining
        nets := circuit.nets.filter fun n => n.id ∉ orphaned.map Net.id }
      (some (if orphaned.length ≠ 0 then
        target.designator ++ " removed; ".toList ++ Nat.toDigits 10 orphaned.length ++
          " net(s) had nothing left on them and are gone (".toList ++
          join ", ".toList (orphaned.map Net.name) ++ ").".toList
      else target.designator ++ " removed.".toList)) [] []

/-! ## Copies -/

/-- `\s*\(\s*([^),\s]+)\s*\)` at the start: the reference, what was matched and the rest. -/
def nodeRefAt (s : Text) : Option (Text × Text × Text) :=
  match s.dropWhile isSpace with
  | '(' :: inner =>
    let start := inner.dropWhile isSpace
    let ref := start.takeWhile fun c => c ≠ ')' && c ≠ ',' && !isSpace c
    let tail := start.dropWhile fun c => c ≠ ')' && c ≠ ',' && !isSpace c
    match ref, tail.dropWhile isSpace with
    | _ :: _, ')' :: rest => some (ref, s.take (s.length - rest.length), rest)
    | _, _ => none
  | _ => none

/-- `/\bv\s*\(/i.test(s)`, behind a word character where `inWord` holds. -/
def readsNode (inWord : Bool) : Text → Bool
  | [] => false
  | c :: s =>
    (!inWord && sameLetter 'v' c && (s.dropWhile isSpace).head? = some '(') ||
      readsNode (isWord c) s

/-- `whole.replace(ref, to)`: the first occurrence. -/
def replaceFirst (ref to' : Text) : Text → Text
  | [] => if ref = [] then to' else []
  | c :: s =>
    if startsWith (c :: s) ref then to' ++ (c :: s).drop ref.length
    else c :: replaceFirst ref to' s

/-- `value.replace(/\bv\s*\(\s*([^),\s]+)\s*\)/gi, …)`: the text, and the references that
stay with the original's nodes. -/
def rewriteNodes (shared : List Text) (netFor : Map Text Text) :
    Nat → Bool → Text → Text × List Text
  | 0, _, s => (s, [])
  | _ + 1, _, [] => ([], [])
  | fuel + 1, inWord, c :: s =>
    match (if !inWord && sameLetter 'v' c then nodeRefAt s else none) with
    | none =>
      let (out, reads) := rewriteNodes shared netFor fuel (isWord c) s
      (c :: out, reads)
    | some (ref, matched, rest) =>
      let (out, reads) := rewriteNodes shared netFor fuel false rest
      if ref ∈ shared then (c :: matched ++ out, reads)
      else
        match truthy (netFor.get? ref) with
        | some to' => (replaceFirst ref to' (c :: matched) ++ out, reads)
        | none => (c :: matched ++ out, ref :: reads)

/-- `{ ...carried, ...c }`: what the copy lacks is taken from the original. -/
def Component.carry (original c : Component) : Component :=
  { c with
    value := c.value.orElse fun _ => original.value
    model := c.model.orElse fun _ => original.model
    properties := c.properties.orElse fun _ => original.properties }

/-- The pins of a copy: shared nets as they were, internal ones on one fresh net for each
original net, the others on their own. -/
def copyPins (shared : List Text) (inside : Map Text Nat) (wasOn : Map Text Text) :
    Map Text Text → List PinConnection → Map Text Text × List PinConnection
  | netFor, [] => (netFor, [])
  | netFor, pin :: pins =>
    match wasOn.get? pin.pinId with
    | none =>
      let (netFor, rest) := copyPins shared inside wasOn netFor pins
      (netFor, pin :: rest)
    | some was =>
      if was ∈ shared then
        let (netFor, rest) := copyPins shared inside wasOn netFor pins
        (netFor, { pin with netId := was } :: rest)
      else if (inside.get? was).getD 0 < 2 then
        let (netFor, rest) := copyPins shared inside wasOn netFor pins
        (netFor, pin :: rest)
      else
        let mapped := (netFor.get? was).getD pin.netId
        let (netFor, rest) := copyPins shared inside wasOn (netFor.set was mapped) pins
        (netFor, { pin with netId := mapped } :: rest)

/-- What the copies built so far have come to. -/
structure Copying where
  next : CircuitJson
  created : List Text := []
  /-- The fresh net of each internal one. -/
  netFor : Map Text Text := []

/-- The shape a copy is built to. -/
def specOf (original : Component) : NewPart where
  type := original.type
  value := original.value
  model := original.model
  catalog := original.catalog
  pins := some (original.pins.map PinConnection.pinId)

/-- The copy of one part, on the document that holds the copies before it. -/
def copyOne (shared : List Text) (inside : Map Text Nat) (st : Copying) (original : Component) :
    Except (EditRefusal × Text) Copying :=
  match addComponent st.next (specOf original) with
  | .refused reason message => .error (reason, message)
  | .unchanged _ => .ok st
  | .changed added _ _ _ =>
    match added.components.getLast? with
    | none => .ok st
    | some copy =>
      let wasOn := Map.fill PinConnection.pinId PinConnection.netId original.pins []
      let (netFor, pins) := copyPins shared inside wasOn st.netFor copy.pins
      .ok
        { next := replaceComponent added copy.id fun c => { original.carry c with pins }
          created := st.created ++ [copy.id]
          netFor }

def copyAll (shared : List Text) (inside : Map Text Nat) :
    Copying → List Component → Except (EditRefusal × Text) Copying
  | st, [] => .ok st
  | st, original :: originals =>
    match copyOne shared inside st original with
    | .error refusal => .error refusal
    | .ok st => copyAll shared inside st originals

/-- `c.value` with the nodes that travelled with the selection, and what it still reads. -/
def rewriteValue (shared : List Text) (st : Copying) (c : Component) : Option Text × List Text :=
  match c.value with
  | none => (none, [])
  | some value =>
    if c.id ∈ st.created ∧ readsNode false value = true then
      let (out, reads) := rewriteNodes shared st.netFor (value.length + 1) false value
      (some out, reads.map fun ref => c.designator ++ " reads node ".toList ++ ref)
    else (some value, [])

/-- The nets a sheet marks rather than wires. -/
def sharedNets (circuit : CircuitJson) : List Text :=
  (circuit.nets.filter fun n => n.isGround || n.isPower).map Net.id

/-- How many terminals of each net are inside the selection. -/
def insideCounts (shared : List Text) (originals : List Component) : Map Text Nat :=
  (originals.flatMap fun c => c.pins.filter (·.netId ∉ shared)).foldl
    (fun m pin => m.set pin.netId ((m.get? pin.netId).getD 0 + 1)) []

/-- The copies with their expressions rewritten, and without the private nets nothing is on. -/
def finishCopies (circuit : CircuitJson) (shared : List Text) (st : Copying) : CircuitJson :=
  let referenced := st.next.components.flatMap fun c => c.pins.map PinConnection.netId
  { st.next with
    components := st.next.components.map fun c => { c with value := (rewriteValue shared st c).1 }
    nets := st.next.nets.filter fun n => n.id ∈ referenced ∨ n.id ∈ circuit.nets.map Net.id }

def duplicateNote (st : Copying) (stillReaching : List Text) : Option Text :=
  truthy (some (join " ".toList (
    (if st.created.length = 1 then []
      else ["Copied ".toList ++ Nat.toDigits 10 st.created.length ++
        (" parts; connections among them were kept, connections to the rest of the design were " ++
          "not.").toList]) ++
    (if stillReaching.length > 0 then
      [join "; ".toList stillReaching ++
        (" — an expression cannot be cut the way a wire can, so the copy still reads the " ++
          "original's node.").toList]
      else []))))

def duplicateComponents (circuit : CircuitJson) (ids : List Text) : EditResult CircuitJson :=
  let find := fun id => circuit.components.find? (·.id = id)
  match ids.find? fun id => (find id).isNone with
  | some missing => .refused .noSuchComponent
      ("No component with id \"".toList ++ missing ++ "\".".toList)
  | none =>
    let originals := (ids.filterMap find).filter fun c => isPlaceablePart c.type
    if originals.length = 0 then .unchanged circuit
    else
      let shared := sharedNets circuit
      match copyAll shared (insideCounts shared originals) { next := circuit } originals with
      | .error (reason, message) => .refused reason message
      | .ok st =>
        let stillReaching := (st.next.components.flatMap fun c => (rewriteValue shared st c).2).eraseDups
        .changed (finishCopies circuit shared st) (duplicateNote st stillReaching) st.created
          (originals.map Component.id)

end CircuitForge
