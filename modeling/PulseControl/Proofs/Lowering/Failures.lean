import PulseControl.Proofs.Lowering.Calls
import PulseControl.Proofs.Registry.Sealed
import PulseControl.Proofs.StandardGates.Fitting

/-!
# Why a call is refused

A call is refused with the first error of the plain walk below it, and that error comes from a place in
the tree: a call that is not in order, parameters that are not, a synthesis that fails, a step that does
not bind, or a gate beyond the limit. In a built registry most of these errors cannot be about how gates
go together, and the limit cannot be met unless it is smaller than the number of gates.

* `PulseControl.Lowerer.Fails`, `PulseControl.Lowerer.fails_of_treePlan` – the places where a walk fails;
* `PulseControl.Lowerer.Fails.of_misfit` – the misfits that remain in a sealed registry;
* `PulseControl.Lowerer.built_registry_is_closed` – what can be wrong below a call that is in order.
-/

namespace PulseControl

namespace Lowerer

variable {α : Type} [Scalar α] {l : Lowerer α} {call x : GateCall α} {room : Nat} {e : GateError α}
  {seed : Ledger α}

/-! ### Where a walk fails -/

/-- **The plain walk below a call fails**, with this error, at the call itself or below one of its
steps. -/
inductive Fails (l : Lowerer α) : Nat → GateCall α → GateError α → Prop where
  /-- There is no room for the call. -/
  | full (call : GateCall α) : Fails l 0 call (l.tooDeep call)
  /-- The call is not in order. -/
  | check {room : Nat} {call : GateCall α} {e : GateError α} :
    l.registry.checkCall call = .error e → Fails l (room + 1) call e
  /-- The parameters of its slot are not in order. -/
  | resolve {room : Nat} {call : GateCall α} {d : GateDefinition α} {e : GateError α} :
    l.registry.checkCall call = .ok d → l.resolve call.slot = .error e → Fails l (room + 1) call e
  /-- It cannot be synthesized. -/
  | synthesize {room : Nat} {call : GateCall α} {d : GateDefinition α} {params : Params α}
    {e : GateError α} :
    l.registry.checkCall call = .ok d → l.resolve call.slot = .ok params →
    l.registry.synthesize call params = .error e → Fails l (room + 1) call e
  /-- One of its steps does not bind. -/
  | bind {room : Nat} {call : GateCall α} {d : GateDefinition α} {step : Step α} {e : GateError α} :
    l.registry.checkCall call = .ok d → step ∈ d.subcalls → step.bind call d.signature = .error e →
    Fails l (room + 1) call e
  /-- The walk below one of its steps fails. -/
  | inside {room : Nat} {call inner : GateCall α} {d : GateDefinition α} {step : Step α}
    {e : GateError α} :
    l.registry.checkCall call = .ok d → step ∈ d.subcalls → step.bind call d.signature = .ok inner →
    Fails l room inner e → Fails l (room + 1) call e

/-- Every error of the plain walk comes from one of these places. -/
theorem fails_of_treePlan (h : l.treePlan room call = .error e) : l.Fails room call e := by
  induction room generalizing call e with
  | zero =>
    obtain rfl : l.tooDeep call = e := Except.error.inj h
    exact .full call
  | succ room ih =>
    rw [treePlan_succ, Except.bind_eq_error] at h
    rcases h with h | ⟨d, hd, h⟩
    · exact .check h
    rcases Except.bind_eq_error.mp h with h | ⟨params, hparams, h⟩
    · exact .resolve hd h
    rcases Except.bind_eq_error.mp h with h | ⟨-, -, h⟩
    · exact .synthesize hd hparams (Except.discard_eq_error.mp h)
    rcases Except.bind_eq_error.mp h with h | ⟨below, -, h⟩
    · obtain ⟨step, hstep, h⟩ := Except.exists_of_mapM_eq_error h
      rcases Except.bind_eq_error.mp h with h | ⟨inner, hinner, h⟩
      · exact .bind hd hstep h
      · exact .inside hd hstep hinner (ih h)
    · exact nomatch h

/-- A call is refused where the plain walk below it fails. -/
theorem fails_of_lower (h : l.lower call seed = .error e) : l.Fails l.options.maxDepth call e :=
  fails_of_treePlan (plan_eq_error.mp (lower_eq_error.mp h))

/-! ### The misfits of a sealed registry -/

/-- **An error of a procedure's own making**: a primitive gate fails with it, on a call that is in order
and with the parameters of its slot. -/
def OwnError (l : Lowerer α) (x : GateCall α) (e : GateError α) : Prop :=
  ∃ schema procedure params, l.registry.checkCall x = .ok (.primitive schema procedure) ∧
    l.resolve x.slot = .ok params ∧ procedure.synthesize x params = .error e

/-- The calls that are reached from a call that fits all fit. -/
theorem takes_of_reaches (hsealed : l.registry.Sealed)
    (hcall : l.registry.Takes call.key call.targets.length call.args.length)
    (hx : l.registry.Reaches call x) :
    l.registry.Takes x.key x.targets.length x.args.length := by
  induction hx with
  | refl => exact hcall
  | tail _ hstep ih =>
    obtain ⟨d, hd, step, hmem, hbind⟩ := hstep
    exact hsealed.takes_of_bind hd hmem hbind

/-- **A misfit below a call that fits** is a procedure's own error, or the limit is met, and then there
are more gates than those above the call and the room below it. -/
theorem Fails.of_misfit (h : l.Fails room call e) (hsealed : l.registry.Sealed)
    (hmisfit : e.isMisfit = true)
    (hcall : l.registry.Takes call.key call.targets.length call.args.length)
    {keys : List GateKey} (habove : l.registry.Above keys call.key) :
    ∃ x, l.registry.Reaches call x ∧
      (l.OwnError x e ∨ e = l.tooDeep x ∧ keys.length + room < l.registry.size) := by
  induction h generalizing keys with
  | full call =>
    obtain ⟨d, hd, -⟩ := hcall
    exact ⟨call, .refl, Or.inr ⟨rfl, hsealed.length_lt_size habove (hsealed.listed _ d hd)⟩⟩
  | check he => exact absurd he (hcall.noMisfit_checkCall.ne_error hmisfit)
  | resolve _ he => exact absurd he ((hcall.noMisfit_resolve _).ne_error hmisfit)
  | @synthesize room call d params e hd hparams he =>
    have hget := (Registry.checkCall_eq_ok.mp hd).1
    rcases d with ⟨schema, procedure⟩ | ⟨signature, steps⟩
    · rw [Registry.synthesize_primitive hget] at he
      exact ⟨call, .refl, Or.inl ⟨schema, procedure, params, hd, hparams, he⟩⟩
    · rw [Registry.synthesize_compound hget] at he
      exact absurd he ((hsealed.noMisfit_markers hget hcall).ne_error hmisfit)
  | bind hd hstep he =>
    have hget := (Registry.checkCall_eq_ok.mp hd).1
    exact absurd he ((hsealed.noMisfit_bind hget hcall hstep).ne_error hmisfit)
  | @inside room call inner d step e hd hstep hinner _ ih =>
    -- the call stands above the calls of its steps
    have hget := (Registry.checkCall_eq_ok.mp hd).1
    have hrefers : l.registry.Refers call.key inner.key :=
      ⟨d, hget, step, hstep, (Step.of_bind hinner).1.symm⟩
    obtain ⟨x, hx, hcause⟩ := ih hmisfit (hsealed.takes_of_bind hget hstep hinner)
      (habove.cons hsealed (hsealed.listed _ d hget) hrefers)
    refine ⟨x, hx.head ⟨d, hget, step, hstep, hinner⟩, hcause.imp_right fun ⟨he, hsize⟩ => ⟨he, ?_⟩⟩
    rw [List.length_cons] at hsize
    omega

/-- A call that is refused for the limit is in order, if there is any room at all. -/
theorem Fails.exists_checkCall_ok {gate : GateKey} {limit : Nat} (hroom : 1 ≤ room)
    (h : l.Fails room call (.expansionDepth gate limit)) :
    ∃ d, l.registry.checkCall call = .ok d := by
  cases h with
  | full => exact absurd hroom (Nat.not_succ_le_zero 0)
  | check he => exact absurd he (l.registry.checkCall_ne_expansionDepth call gate limit)
  | resolve hd => exact ⟨_, hd⟩
  | synthesize hd => exact ⟨_, hd⟩
  | bind hd => exact ⟨_, hd⟩
  | inside hd => exact ⟨_, hd⟩

/-- The procedures of the library have no misfits of their own. -/
theorem OwnError.not_misfit (h : l.OwnError x e) (hl : StandardGates.Extended l.registry) :
    e.isMisfit = false := by
  obtain ⟨schema, procedure, params, hd, -, he⟩ := h
  obtain ⟨hget, hcheck⟩ := Registry.checkCall_eq_ok.mp hd
  exact StandardGates.primitives_noMisfit (hl.primitive_mem hget) hcheck e he

/-- A misfit for which a call that is in order is refused. -/
theorem misfit_of_lower (hsealed : l.registry.Sealed) {d : GateDefinition α}
    (hd : l.registry.checkCall call = .ok d) (he : l.lower call seed = .error e)
    (hmisfit : e.isMisfit = true) : ∃ x, l.registry.Reaches call x ∧
      (l.OwnError x e ∨ e = l.tooDeep x ∧ l.options.maxDepth < l.registry.size) := by
  obtain ⟨x, hx, hcause⟩ := (fails_of_lower he).of_misfit hsealed hmisfit
    (Registry.takes_of_checkCall hd) (l.registry.above_nil call.key)
  rw [List.length_nil, Nat.zero_add] at hcause
  exact ⟨x, hx, hcause⟩

/-- Where all gates can be nested, only a procedure can be to blame. -/
theorem ownError_of_lower (hsealed : l.registry.Sealed)
    (hsize : l.registry.size ≤ l.options.maxDepth) {d : GateDefinition α}
    (hd : l.registry.checkCall call = .ok d) (he : l.lower call seed = .error e)
    (hmisfit : e.isMisfit = true) : ∃ x, l.registry.Reaches call x ∧ l.OwnError x e := by
  obtain ⟨x, hx, hcause⟩ := misfit_of_lower hsealed hd he hmisfit
  exact ⟨x, hx, hcause.resolve_right fun h => absurd hsize (Nat.not_le.mpr h.2)⟩

/-- So it is for the limit, whether the call is in order or not. -/
theorem ownError_of_depth (hsealed : l.registry.Sealed) (hroom : 1 ≤ l.options.maxDepth)
    (hsize : l.registry.size ≤ l.options.maxDepth) {gate : GateKey} {limit : Nat}
    (he : l.lower call seed = .error (.expansionDepth gate limit)) :
    ∃ x, l.registry.Reaches call x ∧ l.OwnError x (.expansionDepth gate limit) := by
  obtain ⟨d, hd⟩ := (fails_of_lower he).exists_checkCall_ok hroom
  exact ownError_of_lower hsealed hsize hd he rfl

/-- **Nothing in a built registry leads outside of it.** Below a call that is in order, through any number
of steps, every step binds to a call and every call passes its check, as far as the gates, the numbers of
targets and the numbers of arguments are concerned. Whatever a call that is in order is refused for, it is
no such misfit, unless a procedure fails with it of its own making or there are more gates than the limit
allows to be nested. If there are not, and the limit allows any gate at all, then no call is refused for
the limit, unless a procedure says so; and in a registry of the library and further compound gates no
procedure does. -/
theorem built_registry_is_closed {attempts : List (GateKey × GateDefinition α)}
    (hr : ((∅ : Registry.Builder α).attemptAll attempts).build = .ok l.registry) :
    (∀ call d x, l.registry.checkCall call = .ok d → l.registry.Reaches call x →
      NoMisfit (l.registry.checkCall x) ∧
        ∃ d', l.registry.get? x.key = some d' ∧
          ∀ step ∈ d'.subcalls, NoMisfit (step.bind x d'.signature)) ∧
    (∀ call d seed e, l.registry.checkCall call = .ok d → l.lower call seed = .error e →
      e.isMisfit = true → ∃ x, l.registry.Reaches call x ∧
        (l.OwnError x e ∨ e = l.tooDeep x ∧ l.options.maxDepth < l.registry.size)) ∧
    (1 ≤ l.options.maxDepth → l.registry.size ≤ l.options.maxDepth →
      (∀ call seed gate limit, l.lower call seed = .error (.expansionDepth gate limit) →
        ∃ x, l.registry.Reaches call x ∧ l.OwnError x (.expansionDepth gate limit)) ∧
      (StandardGates.Extended l.registry → ∀ call seed,
        (∀ gate limit, l.lower call seed ≠ .error (.expansionDepth gate limit)) ∧
          ∀ d, l.registry.checkCall call = .ok d → NoMisfit (l.lower call seed))) := by
  have hsealed := Registry.sealed_of_build hr
  refine ⟨fun call d x hd hx => ?_, fun call d seed e hd => misfit_of_lower hsealed hd,
    fun hroom hsize => ⟨fun call seed gate limit => ownError_of_depth hsealed hroom hsize,
      fun hl call seed => ⟨fun gate limit he => ?_, fun d hd e he => ?_⟩⟩⟩
  · have hfits := takes_of_reaches hsealed (Registry.takes_of_checkCall hd) hx
    obtain ⟨d', hd', -⟩ := id hfits
    exact ⟨hfits.noMisfit_checkCall, d', hd', fun step hs => hsealed.noMisfit_bind hd' hfits hs⟩
  · obtain ⟨x, -, hx⟩ := ownError_of_depth hsealed hroom hsize he
    exact nomatch hx.not_misfit hl
  · refine Bool.eq_false_iff.mpr fun hmisfit => ?_
    obtain ⟨x, -, hx⟩ := ownError_of_lower hsealed hsize hd he hmisfit
    exact Bool.eq_false_iff.mp (hx.not_misfit hl) hmisfit

/-- Below the controlled flip of the library stands a change of basis. With room for two gates the flip is
refused for the limit, and with room for all gates of the library for no misfit whatever. -/
theorem controlledFlip_fits :
    StandardGates.floatLowerer.registry.Reaches StandardGates.controlledFlip
      ⟨.plain "H", ["Q1"], []⟩ ∧
    NoMisfit (StandardGates.floatLowerer.registry.checkCall ⟨.plain "H", ["Q1"], []⟩) ∧
    (∃ gate, ({ StandardGates.floatLowerer with options := ⟨2, true⟩ } : Lowerer Float).lower
      StandardGates.controlledFlip ∅ = .error (.expansionDepth gate 2)) ∧
    2 < StandardGates.floatLowerer.registry.size ∧
    ∀ seed, NoMisfit (StandardGates.floatLowerer.lower StandardGates.controlledFlip seed) := by
  have hl := StandardGates.extended_floatRegistry
  obtain ⟨attempts, hr⟩ := hl.built
  obtain ⟨hbelow, -, hdeep⟩ := built_registry_is_closed (l := StandardGates.floatLowerer) hr
  obtain ⟨-, hrefused, -⟩ := built_registry_is_closed
    (l := { StandardGates.floatLowerer with options := ⟨2, true⟩ }) hr
  have hget : StandardGates.floatRegistry.get? (.plain "CX") = some (.compound (Signature.qubits 2)
      [Composites.step "H" [1] [], Composites.step "CZ" [0, 1] [], Composites.step "H" [1] []]) :=
    hl.get?_of_mem (by simp [StandardGates.definitions, Composites.all])
  have hd : StandardGates.floatLowerer.registry.checkCall StandardGates.controlledFlip = .ok _ :=
    Registry.checkCall_eq_ok.mpr ⟨hget, rfl⟩
  have hreaches : StandardGates.floatLowerer.registry.Reaches StandardGates.controlledFlip
      ⟨.plain "H", ["Q1"], []⟩ :=
    .single ⟨_, hget, Composites.step "H" [1] [], List.mem_cons_self, rfl⟩
  have hfails : (({ StandardGates.floatLowerer with options := ⟨2, true⟩ } : Lowerer Float).lower
      StandardGates.controlledFlip ∅).failsWith GateError.isMisfit = true := by decide +kernel
  obtain ⟨e, he, hmisfit⟩ := Except.failsWith_eq_true.mp hfails
  obtain ⟨x, -, hown | ⟨rfl, hsize⟩⟩ := hrefused _ _ ∅ e hd he hmisfit
  · exact absurd hmisfit (Bool.eq_false_iff.mp (hown.not_misfit hl))
  have hroom : StandardGates.floatLowerer.registry.size ≤ 32 := by decide +kernel
  exact ⟨hreaches, (hbelow _ _ _ hd hreaches).1, ⟨x.key, he⟩, hsize,
    fun seed => ((hdeep (by decide) hroom).2 hl _ seed).2 _ hd⟩

end Lowerer

end PulseControl
