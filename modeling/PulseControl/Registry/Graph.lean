/-!
# Dependency graphs

Gates that are defined by other gates form a directed graph, which must not have a circle. Vertices and
edges are known by their numbers, in the order in which they are added. A vertex stays; an edge can be
taken away again, and then the last edge takes its number.

An edge is added only after looking for a way back. If there is one, the circle that the edge would close
is told along the way that a search finds. Where several ways are equally short it depends on the search
which of them this is, so that the search is a parameter. The one that is defined here goes outwards in
layers and reaches every vertex once.

* `PulseControl.DependencyGraph.addEdge`, `PulseControl.DependencyGraph.removeEdge` – edges come and go;
* `PulseControl.DependencyGraph.path?` – a shortest path between two vertices;
* `PulseControl.DependencyGraph.circle` – the circle that one more edge would close, by any search.
-/

namespace PulseControl

/-- A directed graph whose vertices have names. -/
structure DependencyGraph (κ : Type) where
  /-- The names of the vertices, by number. -/
  names : List κ
  /-- The ends of the edges, by number. -/
  edges : List (Nat × Nat)
  deriving Repr

namespace DependencyGraph

variable {κ : Type}

instance : EmptyCollection (DependencyGraph κ) := ⟨⟨[], []⟩⟩

/-! ### Vertices and edges -/

/-- One more vertex. -/
def addVertex (g : DependencyGraph κ) (name : κ) : Nat × DependencyGraph κ :=
  (g.names.length, { g with names := g.names ++ [name] })

/-- The number of an edge from `a` to `b`, if there is one. -/
def findEdge? (g : DependencyGraph κ) (a b : Nat) : Option Nat := g.edges.idxOf? (a, b)

/-- One more edge from `a` to `b`. -/
def addEdge (g : DependencyGraph κ) (a b : Nat) : Nat × DependencyGraph κ :=
  (g.edges.length, { g with edges := g.edges ++ [(a, b)] })

/-- The graph without the edge of a number, which passes to the last edge. -/
def removeEdge (g : DependencyGraph κ) (e : Nat) : DependencyGraph κ :=
  match g.edges.getLast? with
  | some last =>
    if e < g.edges.length then { g with edges := (g.edges.set e last).dropLast } else g
  | none => g

/-- The graph without several edges, taken away one after the other. -/
def removeEdges (g : DependencyGraph κ) (es : List Nat) : DependencyGraph κ :=
  es.foldl removeEdge g

/-! ### Paths -/

/-- A path under search: the vertex it has come to, and those before it, the latest first. -/
structure Trail where
  tip : Nat
  before : List Nat

/-- The vertices of a path in order. -/
def Trail.vertices (t : Trail) : List Nat := (t.tip :: t.before).reverse

/-- The vertices to which an edge leads from `a`, that of the latest edge first. -/
def successors (g : DependencyGraph κ) (a : Nat) : List Nat :=
  g.edges.reverse.filterMap fun e => if e.1 = a then some e.2 else none

/-- One path to every vertex that the edges behind `t` reach for the first time. -/
def growTrail (t : Trail) : List Nat → List Trail × List Nat → List Trail × List Nat
  | [], found => found
  | b :: bs, (trails, seen) =>
    growTrail t bs
      (if seen.contains b then (trails, seen)
      else (trails ++ [⟨b, t.tip :: t.before⟩], b :: seen))

/-- The next layer of the search, with all vertices seen so far. -/
def grow (g : DependencyGraph κ) (layer : List Trail) (seen : List Nat) : List Trail × List Nat :=
  layer.foldl (fun found t => growTrail t (g.successors t.tip) found) ([], seen)

/-- The search for a vertex, layer by layer. -/
def search (g : DependencyGraph κ) (goal : Nat) :
    Nat → List Trail → List Nat → Option (List Nat)
  | 0, _, _ => none
  | fuel + 1, layer, seen =>
    match layer.find? fun t => t.tip = goal with
    | some t => some t.vertices
    | none =>
      let (next, seen') := g.grow layer seen
      if next.isEmpty then none else search g goal fuel next seen'

/-- **A shortest path** from `a` to `b`, both included. Every layer but the first uses an edge of its
own, which bounds their number. -/
def path? (g : DependencyGraph κ) (a b : Nat) : Option (List Nat) :=
  g.search b (g.edges.length + 1) [⟨a, []⟩] [a]

/-- Whether `b` can be reached from `a` along edges, possibly along none. -/
def hasPath (g : DependencyGraph κ) (a b : Nat) : Bool := (g.path? a b).isSome

/-- A search for a path from one vertex to another. What it finds includes both. -/
abbrev PathSearch (κ : Type) : Type := DependencyGraph κ → Nat → Nat → Option (List Nat)

/-- **The circle** that an edge from `a` to `b` closes where `b` leads back to `a`: the names from `a`
around to the vertex before it, along the way back that a search finds. -/
def circle (find : PathSearch κ) (g : DependencyGraph κ) (a b : Nat) : List κ :=
  let back := ((find g b a).getD []).takeWhile fun c => c ≠ a
  (a :: back).filterMap fun c => g.names[c]?

end DependencyGraph

end PulseControl
