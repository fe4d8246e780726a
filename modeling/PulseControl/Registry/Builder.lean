import PulseControl.Registry.Basic
import PulseControl.Registry.Graph

/-!
# Building a registry

Definitions are registered one by one. Each is checked on its own when it is registered, and its
references go into a dependency graph that must stay without circles. Whether the references lead to
gates that fit is checked once at the end, so that definitions may come in any order.

References are added one by one, before it is known whether all of them are acceptable. Those of a
definition that is refused are taken back, and what stays of it are the vertices of the gates that it
mentions.

A definition that would close a circle is refused with the circle. It is told along the way back that a
search for paths finds, which may be any search: linking, and so an attempt, is given one. The attempts of
the library make do with `PulseControl.DependencyGraph.path?`.

* `PulseControl.Registry.Builder.attemptWith` – one more definition, or why it is refused, and the builder
  afterwards, with any search;
* `PulseControl.Registry.Builder.attempt` – the same with the search of the library;
* `PulseControl.Registry.Builder.register` – one more definition, where a refusal ends the building;
* `PulseControl.Registry.Builder.build` – the registry, if every reference fits.
-/

namespace PulseControl.Registry

/-- Definitions that have been accepted, and the references between them. -/
structure Builder (α : Type) where
  entries : Std.ExtTreeMap GateKey (GateDefinition α)
  /-- The keys in the order of registration. -/
  order : List GateKey
  /-- Which gate refers to which. -/
  graph : DependencyGraph GateKey
  /-- The vertex of every gate that has been mentioned. -/
  vertices : Std.ExtTreeMap GateKey Nat

namespace Builder

variable {α : Type}

instance : EmptyCollection (Builder α) := ⟨⟨∅, [], ∅, ∅⟩⟩

/-- Whether a gate has been accepted. -/
def contains (b : Builder α) (key : GateKey) : Bool := b.entries[key]?.isSome

/-! ### The checks of a definition on its own -/

/-- The first name in the expressions that is none of the arguments. -/
def unboundSymbol? (names : List String) (es : List (ArgExpr α)) : Option String :=
  es.findSome? fun e => e.symbols.find? fun s => !names.contains s

/-- The check of one step: positions among the guaranteed targets, then names among the arguments. -/
def checkStep (key : GateKey) (signature : Signature) (step : Step α) :
    Except (GateError α) Unit :=
  match step.targets.find? fun i => signature.arity.least ≤ i with
  | some i => .error (.targetCount key (.atLeast (i + 1)) signature.arity.least)
  | none =>
    match unboundSymbol? signature.argNames step.args with
    | some s => .error (.unboundSymbol key s)
    | none => .ok ()

/-- The check of the steps of a gate, in order. -/
def checkSteps (key : GateKey) (signature : Signature) (steps : List (Step α)) :
    Except (GateError α) Unit :=
  steps.forM (checkStep key signature)

section Checks

variable [Scalar α]

/-- The checks of a definition that only primitive gates need: the schema, and that every parameter
that is read is declared. -/
def checkParameters (key : GateKey) : GateDefinition α → Except (GateError α) Unit
  | .primitive schema procedure => do
    ParamSchema.validate schema key
    match procedure.reads.find? fun name => !ParamSchema.declares schema name with
    | some name => throw (.undeclaredParameter key name)
    | none => return ()
  | .compound .. => .ok ()

/-- The checks of a definition on its own: its parameters, then its steps. -/
def checkDefinition (key : GateKey) (definition : GateDefinition α) :
    Except (GateError α) Unit := do
  checkParameters key definition
  checkSteps key definition.signature definition.subcalls

end Checks

/-! ### The references of a definition -/

/-- The vertex of a gate, which is new if the gate has not been mentioned. -/
def vertex (b : Builder α) (key : GateKey) : Nat × Builder α :=
  match b.vertices[key]? with
  | some v => (v, b)
  | none =>
    let (v, graph) := b.graph.addVertex key
    (v, { b with graph := graph, vertices := b.vertices.insert key v })

/-- The builder with edges from the vertex `v` to the gates of some steps. The edges `added` before for
the same definition, the latest first, are taken away if one more would close a circle. -/
def linkFrom (find : DependencyGraph.PathSearch GateKey) (v : Nat) :
    List (Step α) → List Nat → Builder α → Except (GateError α) Unit × Builder α
  | [], _, b => (.ok (), b)
  | step :: steps, added, b =>
    let (w, b) := b.vertex step.key
    if (b.graph.findEdge? v w).isSome then linkFrom find v steps added b
    else if b.graph.hasPath w v then
      (.error (.gateCycle (b.graph.circle find v w)),
        { b with graph := b.graph.removeEdges added })
    else
      let (e, graph) := b.graph.addEdge v w
      linkFrom find v steps (e :: added) { b with graph := graph }

/-- The builder with the references of a gate. -/
def link (find : DependencyGraph.PathSearch GateKey) (b : Builder α) (key : GateKey)
    (steps : List (Step α)) : Except (GateError α) Unit × Builder α :=
  let (v, b) := b.vertex key
  linkFrom find v steps [] b

/-- The builder with a definition that has been accepted. -/
def insert (b : Builder α) (key : GateKey) (definition : GateDefinition α) : Builder α :=
  { b with entries := b.entries.insert key definition, order := b.order ++ [key] }

/-! ### Registration -/

variable [Scalar α]

/-- **An attempt to register a definition**: the key must be free, the definition sound on its own, and
its references must not close a circle. If they do, the circle is told along a way back that the search
finds. -/
def attemptWith (find : DependencyGraph.PathSearch GateKey) (b : Builder α) (key : GateKey)
    (definition : GateDefinition α) : Except (GateError α) Unit × Builder α :=
  if b.contains key then (.error (.duplicateGate key), b)
  else
    match checkDefinition key definition with
    | .error e => (.error e, b)
    | .ok () =>
      match b.link find key definition.subcalls with
      | (.error e, b) => (.error e, b)
      | (.ok (), b) => (.ok (), b.insert key definition)

/-- An attempt with the search of the library. -/
def attempt (b : Builder α) (key : GateKey) (definition : GateDefinition α) :
    Except (GateError α) Unit × Builder α :=
  b.attemptWith DependencyGraph.path? key definition

/-- **Registration**, for builders that give up where a definition is refused. -/
def register (b : Builder α) (key : GateKey) (definition : GateDefinition α) :
    Except (GateError α) (Builder α) :=
  match b.attempt key definition with
  | (.ok (), b) => .ok b
  | (.error e, _) => .error e

/-- The builder after attempts one after the other with any search, whatever becomes of each. -/
def attemptAllWith (find : DependencyGraph.PathSearch GateKey) (b : Builder α)
    (attempts : List (GateKey × GateDefinition α)) : Builder α :=
  attempts.foldl (fun b a => (b.attemptWith find a.1 a.2).2) b

/-- The builder after attempts one after the other, whatever becomes of each. -/
def attemptAll (b : Builder α) (attempts : List (GateKey × GateDefinition α)) : Builder α :=
  attempts.foldl (fun b a => (b.attempt a.1 a.2).2) b

omit [Scalar α] in
/-- Whether a step fits the gate that it invokes. -/
def checkReference (b : Builder α) (step : Step α) : Except (GateError α) Unit :=
  match b.entries[step.key]? with
  | none => .error (.unknownGate step.key)
  | some definition =>
    let signature := definition.signature
    if ¬ signature.arity.accepts step.targets.length then
      .error (.targetCount step.key signature.arity step.targets.length)
    else if ¬ signature.acceptsArgs step.args.length then
      .error (signature.argumentCountError step.key step.args.length)
    else .ok ()

omit [Scalar α] in
/-- **The registry**, if every step of every gate fits the gate that it invokes. Every key of the order
has a definition. -/
def build (b : Builder α) : Except (GateError α) (Registry α) := do
  b.order.forM fun key =>
    match b.entries[key]? with
    | some definition => definition.subcalls.forM b.checkReference
    | none => .ok ()
  return ⟨b.entries, b.order⟩

end Builder

end PulseControl.Registry
