import PulseControl.Lowering.Plan
import PulseControl.Proofs.Except

/-!
# The plan without memory

The plan of a call is a walk through the tree of calls below it that remembers what it has walked. The
plain walk `PulseControl.Lowerer.treePlan` remembers nothing: it checks, resolves and synthesizes every
call of the tree as often as it comes.

The two agree, in the errors too. What carries the argument is that every call walked with less room
than the one looked at now is walked to the end: the calls that are still under way, whose subtrees
might yet fail, all have more room, because each call below leaves one less. So a call is skipped only
where the plain walk below it is known to succeed. The graph of the gates need not be without circles
for this.

* `PulseControl.Lowerer.treePlan` – the plain walk;
* `PulseControl.Lowerer.planCall_spec` – the walk with memory, from any sound state;
* `PulseControl.Lowerer.plan_eq_ok`, `PulseControl.Lowerer.plan_eq_error` – the plan of a call;
* `PulseControl.Lowerer.plainPlan`, `PulseControl.Lowerer.plan_eq_plainPlan` – the same with the depth of
  every call.
-/

namespace PulseControl

/-! ### The record of the calls walked -/

namespace Planning

variable {α : Type} [Scalar α]

theorem sameArgs_iff {xs ys : List α} : sameArgs xs ys = true ↔ xs = ys := by
  simp [sameArgs]

theorem room?_walk_self (p : Planning α) (call : GateCall α) (room : Nat) :
    (p.walk call room).room? call = some room := by
  simp [room?, walk, sameArgs_iff.mpr]

/-- A record about one call says nothing about another, even on the same slot. -/
theorem room?_walk_of_ne (p : Planning α) {c call : GateCall α} (room : Nat) (h : c ≠ call) :
    (p.walk call room).room? c = p.room? c := by
  rw [room?, room?, walk]
  simp only [Std.ExtTreeMap.getElem?_insert, Std.LawfulEqOrd.compare_eq_iff_eq]
  split
  · next hslot =>
    have hargs : call.args ≠ c.args := fun hargs => by
      obtain ⟨key, targets, args⟩ := c
      obtain ⟨key', targets', args'⟩ := call
      cases hslot
      cases hargs
      exact h rfl
    have hskip : sameArgs call.args c.args = false :=
      Bool.eq_false_iff.mpr fun hsame => hargs (sameArgs_iff.mp hsame)
    have hkeep : (fun w : List α × Nat =>
        decide ((!sameArgs w.1 call.args) = true ∧ sameArgs w.1 c.args = true)) =
          fun w => sameArgs w.1 c.args := by
      funext w
      cases hw : sameArgs w.1 c.args with
      | false => simp
      | true =>
        -- the entries taken out are those with the arguments of the other call
        have hother : w.1 ≠ call.args := fun hsame => hargs (hsame.symm.trans (sameArgs_iff.mp hw))
        simp [sameArgs, hother]
    rw [hslot, Option.getD_some, List.find?_cons_of_neg (by simp [hskip]), List.find?_filter, hkeep]
  · rfl

end Planning

namespace Lowerer

variable {α : Type} [Scalar α]

/-! ### The plain walk -/

/-- **The plain walk** below a call that may nest `room` gates, itself included. The outcome lists the
slots of the tree with their parameters, in the order of the walk and as often as they come. -/
def treePlan (l : Lowerer α) : Nat → GateCall α → Except (GateError α) (List (Slot × Params α))
  | 0, call => .error (l.tooDeep call)
  | room + 1, call => do
    let definition ← l.registry.checkCall call
    let params ← l.resolve call.slot
    discard (l.registry.synthesize call params)
    let below ← definition.subcalls.mapM fun step => do
      let inner ← step.bind call definition.signature
      treePlan l room inner
    return (call.slot, params) :: below.flatten

/-- The plain walks below the steps of a call. -/
def treesBelow (l : Lowerer α) (room : Nat) (call : GateCall α) (signature : Signature)
    (steps : List (Step α)) : Except (GateError α) (List (List (Slot × Params α))) :=
  steps.mapM fun step => step.bind call signature >>= l.treePlan room

theorem treesBelow_cons (l : Lowerer α) (room : Nat) (call : GateCall α) (signature : Signature)
    (step : Step α) (steps : List (Step α)) :
    l.treesBelow room call signature (step :: steps) = (do
      let inner ← step.bind call signature
      let visits ← l.treePlan room inner
      let below ← l.treesBelow room call signature steps
      return visits :: below) := by
  rw [treesBelow, List.mapM_cons, bind_assoc]
  rfl

variable {l : Lowerer α} {room : Nat} {call : GateCall α} {visits : List (Slot × Params α)}

theorem treePlan_succ (l : Lowerer α) (room : Nat) (call : GateCall α) :
    l.treePlan (room + 1) call = (do
      let definition ← l.registry.checkCall call
      let params ← l.resolve call.slot
      discard (l.registry.synthesize call params)
      let below ← l.treesBelow room call definition.signature definition.subcalls
      return (call.slot, params) :: below.flatten) :=
  rfl

/-- A plain walk that succeeds has room. -/
theorem exists_room_of_treePlan (h : l.treePlan room call = .ok visits) : ∃ r, room = r + 1 := by
  cases room with
  | zero => cases h
  | succ r => exact ⟨r, rfl⟩

/-- What it means that the plain walk succeeds. -/
theorem treePlan_succ_eq_ok :
    l.treePlan (room + 1) call = .ok visits ↔
      ∃ definition params below, l.registry.checkCall call = .ok definition ∧
        l.resolve call.slot = .ok params ∧
        (∃ s, l.registry.synthesize call params = .ok s) ∧
        l.treesBelow room call definition.signature definition.subcalls = .ok below ∧
        visits = (call.slot, params) :: below.flatten := by
  rw [treePlan_succ]
  simp only [Except.bind_eq_ok, Except.discard_eq_ok]
  constructor
  · rintro ⟨definition, hd, params, hp, -, hs, below, hb, h⟩
    exact ⟨definition, params, below, hd, hp, hs, hb, (Except.ok.inj h).symm⟩
  · rintro ⟨definition, params, below, hd, hp, hs, hb, rfl⟩
    exact ⟨definition, hd, params, hp, (), hs, below, hb, rfl⟩

/-- A gate that expands to nothing is planned as soon as its own checks succeed. -/
theorem treePlan_leaf {definition : GateDefinition α} {params : Params α} {s : Synthesis α}
    (hcheck : l.registry.checkCall call = .ok definition) (hleaf : definition.subcalls = [])
    (hres : l.resolve call.slot = .ok params) (hs : l.registry.synthesize call params = .ok s)
    (room : Nat) : l.treePlan (room + 1) call = .ok [(call.slot, params)] := by
  refine treePlan_succ_eq_ok.mpr ⟨definition, params, [], hcheck, hres, ⟨s, hs⟩, ?_, rfl⟩
  rw [hleaf, treesBelow, List.mapM_nil]
  rfl

/-- The steps of a gate are planned as soon as the calls that they make are. -/
theorem exists_treesBelow {signature : Signature} {steps : List (Step α)} {calls : List (GateCall α)}
    (hbind : (steps.mapM fun step => step.bind call signature) = .ok calls)
    (h : ∀ c ∈ calls, ∃ visits, l.treePlan room c = .ok visits) :
    ∃ below, l.treesBelow room call signature steps = .ok below := by
  rw [Except.mapM_eq_ok] at hbind
  induction hbind with
  | nil => exact ⟨[], rfl⟩
  | cons hstep _ ih =>
    obtain ⟨⟨visits, hvisits⟩, hrest⟩ := List.forall_mem_cons.mp h
    obtain ⟨below, hbelow⟩ := ih hrest
    refine ⟨visits :: below, ?_⟩
    rw [treesBelow_cons, hstep, Except.bind_ok, hvisits, Except.bind_ok, hbelow, Except.bind_ok]
    rfl

/-- The plain walk visits the call itself. -/
theorem mem_treePlan {params : Params α} (h : l.treePlan (room + 1) call = .ok visits)
    (hres : l.resolve call.slot = .ok params) : (call.slot, params) ∈ visits := by
  obtain ⟨_, params', _, _, hres', _, _, rfl⟩ := treePlan_succ_eq_ok.mp h
  obtain rfl : params = params' := Except.ok.inj (hres.symm.trans hres')
  exact List.mem_cons_self

/-- **Every visit of the plain walk is to a call** whose own walk is a part of it. -/
theorem exists_of_mem_treePlan (h : l.treePlan room call = .ok visits) {v : Slot × Params α}
    (hv : v ∈ visits) : ∃ (r : Nat) (c : GateCall α) (sub : List (Slot × Params α)),
      l.treePlan (r + 1) c = .ok sub ∧ c.slot = v.1 ∧ l.resolve c.slot = .ok v.2 ∧
        sub ⊆ visits := by
  induction room generalizing call visits with
  | zero => cases h
  | succ room ih =>
    obtain ⟨definition, params, below, -, hres, -, hbelow, rfl⟩ := treePlan_succ_eq_ok.mp h
    rcases List.mem_cons.mp hv with rfl | hv
    · exact ⟨room, call, _, h, rfl, hres, List.Subset.refl _⟩
    · obtain ⟨inner, hinner, hv⟩ := List.mem_flatten.mp hv
      obtain ⟨step, -, htree⟩ := Except.exists_of_mem_result hbelow hinner
      obtain ⟨x, -, htree⟩ := Except.bind_eq_ok.mp htree
      obtain ⟨r, c, sub, hsub, hslot, hc, hsubset⟩ := ih htree hv
      exact ⟨r, c, sub, hsub, hslot, hc, fun w hw =>
        List.mem_cons_of_mem _ (List.mem_flatten.mpr ⟨inner, hinner, hsubset hw⟩)⟩

/-- A plain walk that succeeds does so with more room. -/
theorem treePlan_mono {room' : Nat} (h : l.treePlan room call = .ok visits) (hroom : room ≤ room') :
    l.treePlan room' call = .ok visits := by
  -- every call below leaves one place less, so the induction is on the room, for all calls at once
  induction room generalizing call visits room' with
  | zero => cases h
  | succ room ih =>
    obtain ⟨room', rfl⟩ : ∃ n, room' = n + 1 := ⟨room' - 1, by omega⟩
    rw [treePlan_succ_eq_ok] at h ⊢
    obtain ⟨definition, params, below, hd, hp, hs, hb, rfl⟩ := h
    refine ⟨definition, params, below, hd, hp, hs, ?_, rfl⟩
    rw [treesBelow, Except.mapM_eq_ok] at hb ⊢
    refine hb.imp fun step vs hstep => ?_
    rw [Except.bind_eq_ok] at hstep ⊢
    obtain ⟨inner, hbind, hinner⟩ := hstep
    exact ⟨inner, hbind, ih hinner (by omega)⟩

/-! ### The walk with memory -/

/-- The walk with memory below the steps of a call. -/
def planSteps (l : Lowerer α) (room : Nat) (call : GateCall α) (signature : Signature)
    (steps : List (Step α)) (p : Planning α) : Except (GateError α) (Planning α) :=
  steps.foldlM (fun p step => step.bind call signature >>= fun inner => l.planCall room inner p) p

theorem planSteps_cons (l : Lowerer α) (room : Nat) (call : GateCall α) (signature : Signature)
    (step : Step α) (steps : List (Step α)) (p : Planning α) :
    l.planSteps room call signature (step :: steps) p = (do
      let inner ← step.bind call signature
      let p ← l.planCall room inner p
      l.planSteps room call signature steps p) := by
  rw [planSteps, List.foldlM_cons, bind_assoc]
  rfl

theorem planCall_succ (l : Lowerer α) (room : Nat) (call : GateCall α) (p : Planning α) :
    l.planCall (room + 1) call p = (do
      let definition ← l.registry.checkCall call
      let (params, p) ← l.paramsFor p call.slot
      let below := l.planSteps room call definition.signature definition.subcalls
        (p.walk call room)
      match p.room? call with
      | some seen => if seen ≤ room then return p else below
      | none =>
        discard (l.registry.synthesize call params)
        below) :=
  rfl

/-- **A sound state of the walk**, for a call that may nest `room` gates. -/
structure Sound (l : Lowerer α) (room : Nat) (p : Planning α) : Prop where
  /-- Parameters are those of the slots. -/
  resolved : ∀ (slot : Slot) (params : Params α),
    p.plan[slot]? = some params → l.resolve slot = .ok params
  /-- The calls walked have been synthesized. -/
  tried : ∀ c r, p.room? c = some r → ∃ params, p.plan[c.slot]? = some params ∧
    ∃ s, l.registry.synthesize c params = .ok s
  /-- The calls walked with less room have been walked to the end. -/
  done : ∀ c r, p.room? c = some r → r < room → ∃ visits, l.treePlan (r + 1) c = .ok visits ∧
    ∀ v ∈ visits, p.plan[v.1]? = some v.2

/-- The state `p'` of the walk comes after the state `p` and some visits, which had less than `room`. -/
structure Visited (l : Lowerer α) (room : Nat) (p p' : Planning α)
    (visits : List (Slot × Params α)) : Prop where
  sound : l.Sound room p'
  adds : ∀ (slot : Slot) (params : Params α),
    p'.plan[slot]? = some params ↔ p.plan[slot]? = some params ∨ (slot, params) ∈ visits
  keeps : ∀ c r, p'.room? c = some r → room ≤ r → p.room? c = some r

/-- The walk with memory does what the plain walk does. -/
def Agrees (l : Lowerer α) (room : Nat) (p : Planning α)
    (plain : Except (GateError α) (List (Slot × Params α))) :
    Except (GateError α) (Planning α) → Prop
  | .ok p' => ∃ visits, plain = .ok visits ∧ l.Visited room p p' visits
  | .error e => plain = .error e

variable {p p' p'' : Planning α}

theorem sound_empty (l : Lowerer α) (room : Nat) : l.Sound room ∅ where
  resolved slot params h := by
    rw [show (∅ : Planning α).plan = ∅ from rfl, Std.ExtTreeMap.getElem?_empty] at h
    cases h
  tried c r h := by
    rw [Planning.room?, show (∅ : Planning α).walked = ∅ from rfl,
      Std.ExtTreeMap.getElem?_empty] at h
    cases h
  done c r h := by
    rw [Planning.room?, show (∅ : Planning α).walked = ∅ from rfl,
      Std.ExtTreeMap.getElem?_empty] at h
    cases h

theorem Sound.visited_nil (h : l.Sound room p) : l.Visited room p p [] :=
  ⟨h, fun _ _ => by simp, fun _ _ h _ => h⟩

theorem Visited.trans {visits' : List (Slot × Params α)} (h : l.Visited room p p' visits)
    (h' : l.Visited room p' p'' visits') : l.Visited room p p'' (visits ++ visits') where
  sound := h'.sound
  adds slot params := by
    rw [h'.adds, h.adds, List.mem_append, or_assoc]
  keeps c r hc hr := h.keeps c r (h'.keeps c r hc hr) hr

/-- Visits whose slots have been planned before add nothing. -/
theorem Sound.visited_of_mem (h : l.Sound room p) (hmem : ∀ v ∈ visits, p.plan[v.1]? = some v.2) :
    l.Visited room p p visits where
  sound := h
  adds slot params := ⟨Or.inl, fun hor => hor.elim id (hmem (slot, params))⟩
  keeps _ _ hc _ := hc

/-- A visit that the plain walk makes may be made first. -/
theorem Visited.agrees {v : Slot × Params α} {plain : Except (GateError α) (List (Slot × Params α))}
    {outcome : Except (GateError α) (Planning α)} (h : l.Visited room p p' [v])
    (hmem : ∀ visits, plain = .ok visits → v ∈ visits) (hagrees : l.Agrees room p' plain outcome) :
    l.Agrees room p plain outcome := by
  cases outcome with
  | error e => exact hagrees
  | ok p'' =>
    obtain ⟨visits, hv, hvisited⟩ := hagrees
    have htrans := h.trans hvisited
    refine ⟨visits, hv, htrans.sound, fun slot params => ?_, htrans.keeps⟩
    rw [htrans.adds, List.singleton_append, List.mem_cons]
    constructor
    · rintro (hold | rfl | hin)
      · exact Or.inl hold
      · exact Or.inr (hmem visits hv)
      · exact Or.inr hin
    · exact fun hor => hor.imp_right Or.inr

/-- More parameters of slots keep a state sound. -/
theorem Sound.of_plan_le (h : l.Sound room p) (hwalked : p'.walked = p.walked)
    (hle : ∀ (slot : Slot) (params : Params α),
      p.plan[slot]? = some params → p'.plan[slot]? = some params)
    (hresolved : ∀ (slot : Slot) (params : Params α),
      p'.plan[slot]? = some params → l.resolve slot = .ok params) : l.Sound room p' where
  resolved := hresolved
  tried c r hc := by
    rw [Planning.room?, hwalked, ← Planning.room?] at hc
    obtain ⟨params, hp, hs⟩ := h.tried c r hc
    exact ⟨params, hle _ _ hp, hs⟩
  done c r hc hr := by
    rw [Planning.room?, hwalked, ← Planning.room?] at hc
    obtain ⟨visits, hv, hmem⟩ := h.done c r hc hr
    exact ⟨visits, hv, fun v hvm => hle _ _ (hmem v hvm)⟩

/-- The parameters of a slot, looked up or resolved. -/
theorem paramsFor_spec (h : l.Sound room p) (slot : Slot) :
    (∃ params p', l.paramsFor p slot = .ok (params, p') ∧ l.resolve slot = .ok params ∧
        l.Visited room p p' [(slot, params)]) ∨
      ∃ e, l.paramsFor p slot = .error e ∧ l.resolve slot = .error e := by
  rw [paramsFor]
  cases hslot : p.plan[slot]? with
  | some params =>
    refine Or.inl ⟨params, p, rfl, h.resolved slot params hslot, h, fun slot' params' => ?_,
      fun _ _ hc _ => hc⟩
    simp only [List.mem_singleton, Prod.mk.injEq]
    constructor
    · exact Or.inl
    · rintro (hold | ⟨rfl, rfl⟩)
      · exact hold
      · exact hslot
  | none =>
    cases hres : l.resolve slot with
    | error e => exact Or.inr ⟨e, rfl, rfl⟩
    | ok params =>
      have hadds : ∀ (slot' : Slot) (params' : Params α),
          (p.plan.insert slot params)[slot']? = some params' ↔
            p.plan[slot']? = some params' ∨ (slot', params') ∈ [(slot, params)] := by
        intro slot' params'
        simp only [Std.ExtTreeMap.getElem?_insert, Std.LawfulEqOrd.compare_eq_iff_eq,
          List.mem_singleton, Prod.mk.injEq]
        split
        · next heq =>
          subst heq
          simp [hslot, eq_comm]
        · next hne =>
          exact ⟨Or.inl, fun hor => hor.resolve_right fun heq => hne heq.1.symm⟩
      refine Or.inl ⟨params, { p with plan := p.plan.insert slot params }, rfl, rfl,
        h.of_plan_le rfl (fun _ _ hold => (hadds _ _).mpr (Or.inl hold)) fun slot' params' hnew => ?_,
        hadds, fun _ _ hc _ => hc⟩
      rcases (hadds slot' params').mp hnew with hold | hmem
      · exact h.resolved _ _ hold
      · cases List.mem_singleton.mp hmem
        exact hres

/-- The walk below the steps of a call, where the walk below each inner call agrees with the plain
one. -/
theorem planSteps_spec
    (hcall : ∀ (inner : GateCall α) (p : Planning α), l.Sound room p →
      l.Agrees room p (l.treePlan room inner) (l.planCall room inner p))
    (h : l.Sound room p) (call : GateCall α) (signature : Signature) (steps : List (Step α)) :
    l.Agrees room p ((l.treesBelow room call signature steps).map List.flatten)
      (l.planSteps room call signature steps p) := by
  induction steps generalizing p with
  | nil => exact ⟨[], rfl, h.visited_nil⟩
  | cons step steps ih =>
    rw [planSteps_cons, treesBelow_cons]
    cases step.bind call signature with
    | error e => exact rfl
    | ok inner =>
      have hinner := hcall inner p h
      simp only [Except.bind_ok]
      cases hplan : l.planCall room inner p with
      | error e =>
        rw [hplan] at hinner
        rw [show l.treePlan room inner = .error e from hinner]
        exact rfl
      | ok p₁ =>
        rw [hplan] at hinner
        obtain ⟨visits, hv, hvisited⟩ := hinner
        have hrest := ih hvisited.sound
        rw [hv]
        simp only [Except.bind_ok]
        cases hsteps : l.planSteps room call signature steps p₁ with
        | error e =>
          rw [hsteps] at hrest
          rw [show l.treesBelow room call signature steps = .error e from
            Except.map_eq_error.mp hrest]
          exact rfl
        | ok p₂ =>
          rw [hsteps] at hrest
          obtain ⟨visits', hv', hvisited'⟩ := hrest
          obtain ⟨below, hbelow, rfl⟩ := Except.map_eq_ok.mp hv'
          rw [hbelow]
          exact ⟨visits ++ below.flatten, rfl, hvisited.trans hvisited'⟩

/-- The record that a call is walked keeps the state sound for the calls below it. -/
theorem Sound.walk (h : l.Sound (room + 1) p) {params : Params α}
    (hparams : p.plan[call.slot]? = some params)
    (htried : ∃ s, l.registry.synthesize call params = .ok s) :
    l.Sound room (p.walk call room) where
  resolved := h.resolved
  tried c r hc := by
    by_cases heq : c = call
    · subst heq
      exact ⟨params, hparams, htried⟩
    · rw [Planning.room?_walk_of_ne p room heq] at hc
      exact h.tried c r hc
  done c r hc hr := by
    by_cases heq : c = call
    · -- of the call itself nothing is said until its walk has come to an end
      subst heq
      rw [Planning.room?_walk_self] at hc
      cases hc
      omega
    · rw [Planning.room?_walk_of_ne p room heq] at hc
      exact h.done c r hc (by omega)

/-- When the walk below a call has come to its end, the call is done. -/
theorem Visited.finish {params : Params α} {below : List (Slot × Params α)}
    (h : l.Sound (room + 1) p) (hparams : p.plan[call.slot]? = some params)
    (htree : l.treePlan (room + 1) call = .ok ((call.slot, params) :: below))
    (hbelow : l.Visited room (p.walk call room) p' below) :
    l.Visited (room + 1) p p' ((call.slot, params) :: below) where
  sound :=
    { resolved := hbelow.sound.resolved
      tried := hbelow.sound.tried
      done := fun c r hc hr => by
        rcases Nat.lt_or_ge r room with hlt | hge
        · exact hbelow.sound.done c r hc hlt
        -- the walk below has used less room, so this entry is older than it
        obtain rfl : r = room := by omega
        have hc' := hbelow.keeps c r hc (Nat.le_refl r)
        by_cases heq : c = call
        · subst heq
          refine ⟨_, htree, fun v hv => (hbelow.adds _ _).mpr ?_⟩
          rcases List.mem_cons.mp hv with rfl | hv
          · exact Or.inl hparams
          · exact Or.inr hv
        · rw [Planning.room?_walk_of_ne p r heq] at hc'
          obtain ⟨visits, hv, hmem⟩ := h.done c r hc' (by omega)
          exact ⟨visits, hv, fun v hvm => (hbelow.adds _ _).mpr (Or.inl (hmem v hvm))⟩ }
  adds slot params' := by
    rw [hbelow.adds, List.mem_cons, Prod.mk.injEq]
    constructor
    · exact fun hor => hor.imp_right Or.inr
    · rintro (hold | ⟨rfl, rfl⟩ | hmem)
      · exact Or.inl hold
      · exact Or.inl hparams
      · exact Or.inr hmem
  keeps c r hc hr := by
    have hc' := hbelow.keeps c r hc (by omega)
    by_cases heq : c = call
    · subst heq
      rw [Planning.room?_walk_self] at hc'
      cases hc'
      omega
    · rwa [Planning.room?_walk_of_ne p room heq] at hc'

/-- The walk below a call whose own checks have succeeded, where it is not skipped. -/
theorem walkBelow_spec
    (hcall : ∀ (inner : GateCall α) (p : Planning α), l.Sound room p →
      l.Agrees room p (l.treePlan room inner) (l.planCall room inner p))
    (h : l.Sound (room + 1) p) {definition : GateDefinition α} {params : Params α}
    (hd : l.registry.checkCall call = .ok definition)
    (hres : l.resolve call.slot = .ok params) (hparams : p.plan[call.slot]? = some params)
    (htried : ∃ s, l.registry.synthesize call params = .ok s) :
    l.Agrees (room + 1) p (l.treePlan (room + 1) call)
      (l.planSteps room call definition.signature definition.subcalls (p.walk call room)) := by
  have hfold := planSteps_spec hcall (h.walk hparams htried) call definition.signature
    definition.subcalls
  obtain ⟨s, hs⟩ := htried
  have htree : l.treePlan (room + 1) call =
      (l.treesBelow room call definition.signature definition.subcalls).map
        fun below => (call.slot, params) :: below.flatten := by
    simp only [treePlan_succ, hd, hres, hs, Except.bind_ok, Except.discard_ok]
    cases l.treesBelow room call definition.signature definition.subcalls <;> rfl
  cases hsteps : l.planSteps room call definition.signature definition.subcalls
      (p.walk call room) with
  | error e =>
    rw [hsteps] at hfold
    rw [Agrees, htree, Except.map_eq_error]
    exact Except.map_eq_error.mp hfold
  | ok p' =>
    rw [hsteps] at hfold
    obtain ⟨visits, hv, hvisited⟩ := hfold
    obtain ⟨below, hbelow, rfl⟩ := Except.map_eq_ok.mp hv
    rw [hbelow] at htree
    exact ⟨_, htree, hvisited.finish h hparams htree⟩

/-- **The walk with memory agrees with the plain walk**, from any sound state: it fails with the same
error, and where it succeeds it has added just the parameters of the slots of the tree. -/
theorem planCall_spec (room : Nat) (call : GateCall α) (p : Planning α) (h : l.Sound room p) :
    l.Agrees room p (l.treePlan room call) (l.planCall room call p) := by
  induction room generalizing call p with
  | zero => exact rfl
  | succ room ih =>
    rw [planCall_succ]
    cases hd : l.registry.checkCall call with
    | error e =>
      rw [treePlan_succ, hd]
      exact rfl
    | ok definition =>
      simp only [Except.bind_ok]
      rcases paramsFor_spec h call.slot with ⟨params, p₁, hpf, hres, hvisited⟩ | ⟨e, hpf, hres⟩
      · have hparams : p₁.plan[call.slot]? = some params :=
          (hvisited.adds _ _).mpr (Or.inr (List.mem_singleton.mpr rfl))
        have hbelow := walkBelow_spec (ih · ·) hvisited.sound hd hres hparams
        rw [hpf]
        simp only [Except.bind_ok]
        refine hvisited.agrees (fun visits hv => mem_treePlan hv hres) ?_
        cases hseen : p₁.room? call with
        | none =>
          -- the call is new, and its synthesis may fail
          cases hs : l.registry.synthesize call params with
          | error e =>
            rw [treePlan_succ, hd]
            simp only [Except.bind_ok, hres, hs, Except.discard_error]
            exact rfl
          | ok s => exact hbelow ⟨s, hs⟩
        | some seen =>
          obtain ⟨params', hparams', htried⟩ := hvisited.sound.tried call seen hseen
          obtain rfl : params = params' := Option.some.inj (hparams.symm.trans hparams')
          dsimp only
          split
          · next hle =>
            -- the call has been walked to the end with as little room
            obtain ⟨visits, hv, hmem⟩ := hvisited.sound.done call seen hseen (by omega)
            exact ⟨visits, treePlan_mono hv (by omega), hvisited.sound.visited_of_mem hmem⟩
          · exact hbelow htried
      · rw [treePlan_succ, hd, hpf]
        simp only [Except.bind_ok, hres]
        exact rfl

/-! ### The plan -/

/-- **What the plan of a call holds**: it is that of the plain walk, where that succeeds. -/
theorem plan_eq_ok {plan : Plan α} :
    l.plan call = .ok plan ↔ ∃ visits, l.treePlan l.options.maxDepth call = .ok visits ∧
      ∀ (slot : Slot) (params : Params α), plan[slot]? = some params ↔ (slot, params) ∈ visits := by
  have hagrees := planCall_spec l.options.maxDepth call ∅ (sound_empty l _)
  cases hp : l.planCall l.options.maxDepth call ∅ with
  | error e =>
    rw [hp] at hagrees
    rw [Lowerer.plan, hp, show l.treePlan l.options.maxDepth call = .error e from hagrees]
    refine iff_of_false (fun h => nomatch h) ?_
    rintro ⟨visits, ⟨⟩, -⟩
  | ok p =>
    rw [hp] at hagrees
    obtain ⟨visits, hv, hvisited⟩ := hagrees
    have hslots : ∀ (slot : Slot) (params : Params α),
        p.plan[slot]? = some params ↔ (slot, params) ∈ visits := by
      intro slot params
      rw [hvisited.adds, show (∅ : Planning α).plan = ∅ from rfl, Std.ExtTreeMap.getElem?_empty]
      simp
    rw [Lowerer.plan, hp, hv]
    constructor
    · intro h
      obtain rfl : p.plan = plan := Except.ok.inj h
      exact ⟨visits, rfl, hslots⟩
    · rintro ⟨visits', hv', hslots'⟩
      obtain rfl : visits = visits' := Except.ok.inj hv'
      -- two maps that hold the same are the same
      refine congrArg Except.ok (Std.ExtTreeMap.ext_getElem? fun slot => Option.ext fun params => ?_)
      rw [hslots, hslots']

/-- The parameters of a plan are those of the slots. -/
theorem resolve_of_plan {plan : Plan α} (h : l.plan call = .ok plan) {slot : Slot} {params : Params α}
    (hslot : plan[slot]? = some params) : l.resolve slot = .ok params := by
  obtain ⟨visits, hv, hmem⟩ := plan_eq_ok.mp h
  obtain ⟨_, c, _, _, rfl, hres, _⟩ := exists_of_mem_treePlan hv ((hmem slot params).mp hslot)
  exact hres

/-- **A call has a plan where the plain walk succeeds**, and the plain walk fails with the error of the
plan. -/
theorem plan_eq_error {e : GateError α} :
    l.plan call = .error e ↔ l.treePlan l.options.maxDepth call = .error e := by
  have hagrees := planCall_spec l.options.maxDepth call ∅ (sound_empty l _)
  rw [plan, Except.map_eq_error]
  cases hp : l.planCall l.options.maxDepth call ∅ with
  | error e' =>
    rw [hp] at hagrees
    rw [show l.treePlan l.options.maxDepth call = .error e' from hagrees]
    simp
  | ok p =>
    rw [hp] at hagrees
    obtain ⟨visits, hv, -⟩ := hagrees
    simp [hv]

/-- A call has a plan where the plain walk succeeds. -/
theorem exists_plan_of_treePlan (h : l.treePlan room call = .ok visits)
    (hroom : room ≤ l.options.maxDepth) : ∃ plan, l.plan call = .ok plan := by
  cases hplan : l.plan call with
  | ok plan => exact ⟨plan, rfl⟩
  | error e => exact nomatch (treePlan_mono h hroom).symm.trans (plan_eq_error.mp hplan)

/-! ### The plan by depth -/

/-- **The plan without memory** of a call at some depth, where the call that is planned stands at
depth 1. The outcome lists the slots of the tree with their parameters. -/
def plainPlan (l : Lowerer α) (depth : Nat) (call : GateCall α) :
    Except (GateError α) (List (Slot × Params α)) :=
  if l.options.maxDepth < depth then .error (l.tooDeep call)
  else do
    let definition ← l.registry.checkCall call
    let params ← l.resolve call.slot
    discard (l.registry.synthesize call params)
    let below ← definition.subcalls.mapM fun step => do
      let inner ← step.bind call definition.signature
      plainPlan l (depth + 1) inner
    return (call.slot, params) :: below.flatten
termination_by l.options.maxDepth + 1 - depth
decreasing_by omega

/-- The plan without memory is the plain walk with the room that the depth leaves. -/
theorem plainPlan_eq_treePlan (l : Lowerer α) (depth : Nat) (call : GateCall α) :
    l.plainPlan depth call = l.treePlan (l.options.maxDepth + 1 - depth) call := by
  generalize hroom : l.options.maxDepth + 1 - depth = room
  induction room generalizing depth call with
  | zero => rw [plainPlan, if_pos (by omega), treePlan]
  | succ room ih =>
    have hbelow : ∀ inner, l.plainPlan (depth + 1) inner = l.treePlan room inner :=
      fun inner => ih (depth + 1) inner (by omega)
    rw [plainPlan, if_neg (by omega), treePlan]
    simp only [hbelow]

/-- **Memory changes nothing about a plan**: it succeeds exactly where the plan without memory does, with
just the slots of its tree and for each the parameters resolved there, and it fails with its error. -/
theorem plan_eq_plainPlan (l : Lowerer α) (call : GateCall α) :
    (∀ plan, l.plan call = .ok plan ↔ ∃ visits, l.plainPlan 1 call = .ok visits ∧
      ∀ (slot : Slot) (params : Params α), plan[slot]? = some params ↔ (slot, params) ∈ visits) ∧
    ∀ e, l.plan call = .error e ↔ l.plainPlan 1 call = .error e := by
  rw [plainPlan_eq_treePlan, Nat.add_sub_cancel]
  exact ⟨fun _ => plan_eq_ok, fun _ => plan_eq_error⟩

end Lowerer

end PulseControl
