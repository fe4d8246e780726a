import Mathlib.Data.List.Nodup
import PulseControl.Proofs.Registry.Building
import PulseControl.Proofs.Registry.Shortest

/-!
# The circle that is reported

A definition that leads back to itself is refused with the circle that it would close, so that its author
knows which definition to look at. The circle is put together from two parts that lie in different graphs:
a reference that is not there yet, and a way back that is searched for while some references of the same
definition are already in the graph, from which they are then taken away. Nor is it known of the search
which of several shortest ways it finds.

None of this matters. References that start at the gate itself do not help to get there, so that the way
back is a walk in the graph of before, and whichever shortest walk it is, it meets no gate twice and comes
to the refused gate only at its end. `PulseControl.Registry.LeastCircle` says what follows for the list.

* `PulseControl.Registry.Builder.leastCircle_along` – the list that any shortest way back gives;
* `PulseControl.Registry.Builder.reported_circle_is_least` – the list that is reported, with any search
  that finds a shortest way where there is one.
-/

namespace PulseControl

/-! ### The list that a way back gives -/

namespace DependencyGraph

variable {κ : Type}

/-- The names around a circle: those from a vertex along a way back to it, without its end. -/
def circleAlong (g : DependencyGraph κ) (v : Nat) (back : List Nat) : List κ :=
  (v :: back.takeWhile fun u => u ≠ v).filterMap fun u => g.names[u]?

theorem circle_eq_circleAlong {find : PathSearch κ} {g : DependencyGraph κ} {v w : Nat}
    {back : List Nat} (h : find g w v = some back) : g.circle find v w = g.circleAlong v back := by
  rw [circle, h]
  rfl

end DependencyGraph

namespace Registry

/-! ### Circles of references -/

section Circles

variable {K : Type} {R : K → K → Prop} {key : K}

/-- A walk to the gate `key` need not use references that start there: it can end where it comes to the
gate first. -/
theorem exists_walk_of_refer {x y : K} {bs p : List K} (h : Walk (Refer R key bs) x y p)
    (hy : y = key) : ∃ q, Walk R x key q ∧ q.length ≤ p.length := by
  induction h with
  | here a => exact ⟨[a], hy ▸ .here a, Nat.le_refl _⟩
  | @step a b c p hstep _ ih =>
    rcases hstep with hR | ⟨rfl, -⟩
    · obtain ⟨q, hq, hlen⟩ := ih hy
      exact ⟨a :: q, .step hR hq, Nat.succ_le_succ hlen⟩
    · -- the walk has come to the gate, and what it does from here on is left out
      exact ⟨[a], .here a, Nat.succ_le_succ (Nat.zero_le _)⟩

/-- **A least circle through the first reference that leads back**: the gates on a circle that a gate
`key` with references to `keys` would close in the relation `R`, told from `key` around. -/
structure LeastCircle (R : K → K → Prop) (key : K) (keys circle : List K) : Prop where
  /-- It starts with the gate itself. -/
  starts : circle.head? = some key
  /-- No gate comes twice. -/
  nodup : circle.Nodup
  /-- Each gate refers to the next one, and the last one to the first. -/
  closed : Walk (Refer R key keys) key key (circle ++ [key])
  /-- The second gate, which is the first one again if there is no other, is the first of `keys` that is
  the gate itself or leads back to it. -/
  leaves : ∃ before y after, keys = before ++ y :: after ∧ (circle ++ [key])[1]? = some y ∧
    Relation.ReflTransGen R y key ∧ ∀ z ∈ before, ¬Relation.ReflTransGen R z key
  /-- No circle that starts with the same reference is shorter. -/
  least : ∀ other : List K, other.head? = some key →
    Walk (Refer R key keys) key key (other ++ [key]) →
    (other ++ [key])[1]? = (circle ++ [key])[1]? → circle.length ≤ other.length

/-- A circle that leaves by `y` comes back from `y`, in as many gates. -/
theorem exists_walk_of_circle {y : K} {keys other : List K} (hhead : other.head? = some key)
    (h : Walk (Refer R key keys) key key (other ++ [key]))
    (hsecond : (other ++ [key])[1]? = some y) :
    ∃ q, Walk R y key q ∧ q.length ≤ other.length := by
  obtain ⟨rest, rfl⟩ := List.head?_eq_some_iff.mp hhead
  have hfirst : (rest ++ [key]).head? = some y := by
    rw [List.head?_eq_getElem?]
    exact hsecond
  rw [List.cons_append] at h
  obtain ⟨-, hback⟩ := h.tail hfirst
  obtain ⟨q, hq, hlen⟩ := exists_walk_of_refer hback rfl
  refine ⟨q, hq, ?_⟩
  simpa using hlen

end Circles

namespace Builder

variable {α : Type} {b : Builder α} {R : GateKey → GateKey → Prop}

/-! ### Walks between vertices and walks between gates -/

/-- A walk in the graph, read by the names that it meets, is one along the relation that is recorded. -/
theorem Records.exists_keys (h : b.Records R) {v w : Nat} {p : List Nat}
    (hp : Walk b.graph.Edge w v p) {x y : GateKey} (hw : b.graph.names[w]? = some y)
    (hv : b.graph.names[v]? = some x) :
    ∃ ys, p.map (fun u => b.graph.names[u]?) = ys.map some ∧ Walk R y x ys := by
  induction hp generalizing y with
  | here u =>
    rw [hw] at hv
    cases hv
    exact ⟨[x], by rw [List.map_singleton, List.map_singleton, hw], .here x⟩
  | @step u u' v p hstep _ ih =>
    obtain ⟨y', z, hR, hu, hu'⟩ := h.sound u u' hstep
    rw [hw] at hu
    cases hu
    obtain ⟨ys, hys, hwalk⟩ := ih hu' hv
    exact ⟨y :: ys, by rw [List.map_cons, List.map_cons, hys, hw], .step hR hwalk⟩

/-- A walk along the relation that is recorded is one in the graph. -/
theorem Records.exists_vertices (h : b.Records R) {x y : GateKey} {ys : List GateKey}
    (hys : Walk R y x ys) {v w : Nat} (hw : b.graph.names[w]? = some y)
    (hv : b.graph.names[v]? = some x) :
    ∃ p, Walk b.graph.Edge w v p ∧ p.length = ys.length := by
  induction hys generalizing w with
  | here z =>
    rw [h.named.vertex_unique hw hv]
    exact ⟨[v], .here v, rfl⟩
  | @step y z x ys hR _ ih =>
    obtain ⟨w', u, hstep, hw', hu⟩ := h.complete y z hR
    rw [← h.named.vertex_unique hw hw'] at hstep
    obtain ⟨p, hp, hlen⟩ := ih hu hv
    exact ⟨w :: p, .step hstep hp, congrArg Nat.succ hlen⟩

/-- A walk that meets no vertex twice meets no gate twice. -/
theorem nodup_keys {p : List Nat} {ys : List GateKey} (hnamed : b.Named) (hp : p.Nodup)
    (hys : p.map (fun u => b.graph.names[u]?) = ys.map some) : ys.Nodup := by
  -- a name belongs to one vertex, but a number behind the last vertex has no name
  have hinj : ∀ u ∈ p, ∀ u' ∈ p, b.graph.names[u]? = b.graph.names[u']? → u = u' := by
    intro u hu u' _ heq
    have hmem : b.graph.names[u]? ∈ ys.map some := hys ▸ List.mem_map_of_mem hu
    obtain ⟨y, -, hy⟩ := List.mem_map.mp hmem
    exact hnamed.vertex_unique hy.symm (heq ▸ hy.symm)
  have hnames : (ys.map some).Nodup := hys ▸ List.Nodup.map_on hinj hp
  exact List.Nodup.of_map some hnames

/-! ### Shortest ways back -/

/-- A way back gives the gate and, behind it, the gates on the way. -/
theorem circleAlong_eq {v w : Nat} {back : List Nat} {x : GateKey} {ys : List GateKey}
    (hback : Walk b.graph.Edge w v back) (hnodup : back.Nodup)
    (hv : b.graph.names[v]? = some x)
    (hys : back.map (fun u => b.graph.names[u]?) = (ys ++ [x]).map some) :
    b.graph.circleAlong v back = x :: ys := by
  obtain ⟨q, rfl⟩ := hback.exists_eq_concat
  have hnot : v ∉ q := fun hmem => by
    rw [List.nodup_append] at hnodup
    exact hnodup.2.2 v hmem v (List.mem_singleton.mpr rfl) rfl
  have hq : q.map (fun u => b.graph.names[u]?) = ys.map some := by
    rw [List.map_append, List.map_append, List.map_singleton, List.map_singleton, hv] at hys
    exact List.append_cancel_right hys
  have htake : ((q ++ [v]).takeWhile fun u => u ≠ v) = q := by
    have hpass : ∀ u ∈ q, decide (u ≠ v) = true := fun u hu =>
      decide_eq_true fun heq => hnot (heq ▸ hu)
    rw [List.takeWhile_append_of_pos hpass]
    simp
  have hkeys : (q.filterMap fun u => b.graph.names[u]?) = ys := by
    have hsome := congrArg (List.filterMap id) hq
    rwa [List.filterMap_map, List.filterMap_map, Function.id_comp, Function.id_comp,
      List.filterMap_some] at hsome
  rw [DependencyGraph.circleAlong, htake, List.filterMap_cons, hv, hkeys]

/-- **Any shortest way back gives a least circle**, if it is searched for in a graph that has the references
to gates that do not lead back, besides those of before. -/
theorem leastCircle_along {key y : GateKey} {before after : List GateKey} {v w : Nat}
    {back : List Nat} (hbefore : ∀ z ∈ before, ¬Relation.ReflTransGen R z key)
    (hreach : Relation.ReflTransGen R y key) (hrec : b.Records (Refer R key before))
    (hv : b.graph.names[v]? = some key) (hw : b.graph.names[w]? = some y)
    (hback : ShortestWalk b.graph.Edge w v back) :
    LeastCircle R key (before ++ y :: after) (b.graph.circleAlong v back) := by
  obtain ⟨zs, hzs, hwalk⟩ := hrec.exists_keys hback.walk hw hv
  obtain ⟨ys, rfl⟩ := hwalk.exists_eq_concat
  have hnodup : (ys ++ [key]).Nodup := nodup_keys hrec.named hback.nodup hzs
  have hlength : back.length = ys.length + 1 := by
    simpa using congrArg List.length hzs
  have hsecond : (key :: ys ++ [key])[1]? = some y := by
    rw [List.cons_append, List.getElem?_cons_succ, ← List.head?_eq_getElem?]
    exact hwalk.head?
  rw [circleAlong_eq hback.walk hback.nodup hv hzs]
  refine ⟨rfl, ?_, ?_, ⟨before, y, after, rfl, hsecond, hreach, hbefore⟩,
    fun other hhead hother h => ?_⟩
  · exact List.nodup_append_comm.mp hnodup
  · -- the way back uses references of the steps before `y` at most
    refine .step (Or.inr ⟨rfl, List.mem_append_right _ List.mem_cons_self⟩) (hwalk.mono ?_)
    rintro x z (hR | ⟨rfl, hz⟩)
    · exact Or.inl hR
    · exact Or.inr ⟨rfl, List.mem_append_left _ hz⟩
  · -- the way back on another circle is a walk in the same graph
    obtain ⟨q, hq, hlen⟩ := exists_walk_of_circle hhead hother (h.trans hsecond)
    obtain ⟨p, hp, hplen⟩ := hrec.exists_vertices (hq.mono fun _ _ => Or.inl) hw hv
    have hle := hback.least p hp
    rw [List.length_cons]
    omega

variable {find : DependencyGraph.PathSearch GateKey}

/-- **Where linking stops it reports a least circle**, if the search can be relied on. -/
theorem Stops.leastCircle (hfind : DependencyGraph.FindsShortest find) {key : GateKey}
    {keys cycle : List GateKey} (h : Stops find R key keys (.gateCycle cycle : GateError α)) :
    LeastCircle R key keys cycle := by
  obtain @⟨b, before, after, y, v, w, hbefore, hreach, hrec, hv, hw⟩ := h
  -- the search succeeds in the graph with more references, since it would in that of before
  have hchain : Relation.ReflTransGen (Refer R key before) y key :=
    Relation.ReflTransGen.mono (fun _ _ hR => Or.inl hR) y key hreach
  have hreaches : b.graph.Reaches w v := (hrec.reaches_iff hw hv).mpr hchain
  obtain ⟨back, hback⟩ := hfind.finds b.graph w v hreaches
  rw [DependencyGraph.circle_eq_circleAlong hback]
  exact leastCircle_along hbefore hreach hrec hv hw (hfind.shortest b.graph w v back hback)

/-! ### Refused attempts -/

/-- A computation that does not report a circle. -/
abbrev NoCircle {τ : Type} (x : Except (GateError α) τ) : Prop :=
  x.FailsOnly fun e => ∀ cycle, e ≠ .gateCycle cycle

theorem noCircle_checkStep (key : GateKey) (signature : Signature) (step : Step α) :
    NoCircle (checkStep key signature step) := by
  rw [checkStep]
  split
  · exact .error (by simp)
  · split
    · exact .error (by simp)
    · exact .ok ()

variable [Scalar α]

theorem noCircle_check (s : ParamSpec α) (gate : GateKey) (value : ParamValue α) :
    NoCircle (s.check gate value) := by
  rw [ParamSpec.check]
  split
  · exact .error (by simp)
  · split
    · exact .error (by simp)
    · exact .ok _

theorem noCircle_validateFrom (gate : GateKey) (schema : ParamSchema α) (seen : List String) :
    NoCircle (schema.validateFrom gate seen) := by
  induction schema generalizing seen with
  | nil => exact .ok ()
  | cons s rest ih =>
    have hrest : NoCircle (ParamSchema.validateFrom gate (s.name :: seen) rest) := ih _
    rw [ParamSchema.validateFrom]
    split
    · exact .error (by simp)
    · split
      · refine Except.FailsOnly.bind (fun e he => ?_) fun _ _ => hrest
        exact noCircle_check s gate _ e (Except.discard_eq_error.mp he)
      · exact hrest

theorem noCircle_checkParameters (key : GateKey) (d : GateDefinition α) :
    NoCircle (checkParameters key d) := by
  cases d with
  | primitive schema procedure =>
    refine (noCircle_validateFrom key schema []).bind fun _ _ => ?_
    split
    · exact .error (by simp)
    · exact .ok ()
  | compound signature steps => exact .ok ()

/-- **The checks of a definition on its own report no circle**, so that a circle that is reported comes from
linking. -/
theorem noCircle_checkDefinition (key : GateKey) (d : GateDefinition α) :
    NoCircle (checkDefinition key d) :=
  (noCircle_checkParameters key d).bind fun _ _ =>
    .forM fun step _ => noCircle_checkStep key d.signature step

/-- An attempt that is refused for a circle has come to a step that leads back. -/
theorem stops_of_attempt {definitions : List (GateKey × GateDefinition α)} (h : b.Holds definitions)
    {key : GateKey} {d : GateDefinition α} {cycle : List GateKey}
    (hc : (b.attemptWith find key d).1 = .error (.gateCycle cycle)) :
    Stops find (DependsOn definitions) key (d.subcalls.map Step.key)
      (.gateCycle cycle : GateError α) := by
  rw [attemptWith] at hc
  split at hc
  · cases hc
  · cases hcheck : checkDefinition key d with
    | error e =>
      rw [hcheck] at hc
      cases hc
      exact absurd rfl (noCircle_checkDefinition key d _ hcheck cycle)
    | ok _ =>
      have hlink := link_spec find key d.subcalls h.records h.acyclic
      simp only [hcheck] at hc
      generalize b.link find key d.subcalls = outcome at hlink hc
      obtain ⟨e | ⟨⟨⟩⟩, b'⟩ := outcome
      · cases hc
        exact hlink.2.2
      · cases hc

/-- **The circle that is reported** for a refused definition, after any attempts and with any search that
finds a shortest walk where there is one: it starts with the refused gate, comes to no gate twice, follows
references from gate to gate and back to the first, leaves the gate by the first of its steps that leads
back, and is as short as any circle that leaves by this step. -/
theorem reported_circle_is_least {find : DependencyGraph.PathSearch GateKey}
    (hfind : DependencyGraph.FindsShortest find) (attempts : List (GateKey × GateDefinition α))
    (key : GateKey) (d : GateDefinition α) (cycle : List GateKey)
    (h : (((∅ : Builder α).attemptAllWith find attempts).attemptWith find key d).1 =
      .error (.gateCycle cycle)) :
    LeastCircle ((∅ : Builder α).attemptAllWith find attempts).RefersTo key
      (d.subcalls.map Step.key) cycle := by
  have hholds : ((∅ : Builder α).attemptAllWith find attempts).Holds
      ((∅ : Builder α).accepted attempts) := by
    rw [attemptAllWith_eq]
    exact attemptAll_holds holds_empty attempts
  rw [hholds.records.refersTo_eq]
  exact (stops_of_attempt hholds h).leastCircle hfind

/-- With the search of the library, the circle of three gates that the second step of the last one closes
is told from that gate around. Here there is only one way back. -/
theorem circle_of_three_reported :
    let b := (∅ : Builder Float).attemptAll [chained "A" ["B"], chained "B" ["C"]]
    let c := chained "C" ["D", "A"]
    (b.attempt c.1 c.2).1 = .error (.gateCycle [.plain "C", .plain "A", .plain "B"]) ∧
      LeastCircle b.RefersTo (.plain "C") [.plain "D", .plain "A"]
        [.plain "C", .plain "A", .plain "B"] := by
  intro b c
  have hreport : (b.attempt c.1 c.2).1 =
      .error (.gateCycle [.plain "C", .plain "A", .plain "B"]) := by
    have hfails : ((b.attempt c.1 c.2).1.failsWith fun e => match e with
        | .gateCycle cycle => cycle = [.plain "C", .plain "A", .plain "B"]
        | _ => false) = true := by decide +kernel
    obtain ⟨e, he, htest⟩ := Except.failsWith_eq_true.mp hfails
    rw [he]
    split at htest
    · rw [of_decide_eq_true htest]
    · cases htest
  exact ⟨hreport, reported_circle_is_least DependencyGraph.findsShortest_path?
    [chained "A" ["B"], chained "B" ["C"]] c.1 c.2 _ hreport⟩

/-- A gate that refers to itself is told alone. -/
example :
    let a := chained "A" ["B", "A"]
    ((∅ : Builder Float).attempt a.1 a.2).1 = .error (.gateCycle [.plain "A"]) := by cbv

end Builder

end Registry

end PulseControl
