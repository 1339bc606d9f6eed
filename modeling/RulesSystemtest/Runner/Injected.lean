import RulesSystemtest.Runner.Stepwise
import RulesSystemtest.Runner.Ports

/-! The variables that a runner has collected while it leases its fixtures. They are
those of its leases, each laid over the ones before, and no lease's ports failed to
parse. -/

namespace RulesSystemtest.Runner

open Library

variable {J : Job} {L L' : Local} {i : Input} {t : List Event} {fx : ResolvedFixture}
  {todo : List ResolvedFixture} {leaseID : String}

/-- The name of the fixture that a lease is for. -/
def fixtureName (J : Job) (lease : ActiveLease) : String :=
  ((J.setup.fixtures[lease.stop]?).map (·.name)).getD ""

/-- The variables of one lease. -/
def leaseEnv (J : Job) (lease : ActiveLease) : Except String Env :=
  portEnvFromOutputs J.unmarshalPorts (fixtureName J lease) ((J.range lease.stop).list lease.outputs)

def leaseVars (J : Job) (lease : ActiveLease) (k : String) : Option String :=
  ((leaseEnv J lease).toOption.getD ∅).lookup k

structure Local.Injected (J : Job) (L : Local) : Prop where
  parsed : ∀ lease ∈ L.leases, ∃ env, leaseEnv J lease = .ok env
  lookup : ∀ k, L.injectedEnv.lookup k = overlay (leaseVars J) L.leases k

theorem injected_start (J : Job) : (Local.start J).Injected J where
  parsed lease h := by cases h
  lookup k := Finmap.lookup_empty k

theorem Local.Sound.next (h : L.Sound J) (hs : L.stage.remaining = fx :: todo) (hh : L.stage.holding = true) :
    J.setup.fixtures[L.next]? = some fx := by
  have hdrop := h.planned hh
  rw [hs] at hdrop
  have hhead := List.head?_drop (l := J.setup.fixtures) (i := L.leases.length)
  rw [hdrop] at hhead
  exact hhead.symm

/-- A new lease adds its variables. -/
theorem Local.Injected.leased (h : L.Injected J) (hfx : J.setup.fixtures[L.next]? = some fx)
    {outputs : BTreeMap Value} {portEnv : Env}
    (hports : portEnvFromOutputs J.unmarshalPorts fx.name ((J.range L.next).list outputs) = .ok portEnv) :
    Local.Injected J ⟨.leasing todo, L.leases ++ [⟨leaseID, outputs, L.next⟩], portEnv ∪ L.injectedEnv⟩ := by
  have henv : leaseEnv J ⟨leaseID, outputs, L.next⟩ = .ok portEnv := by
    rw [leaseEnv, fixtureName, hfx]
    exact hports
  constructor
  · intro lease hlease
    rcases List.mem_append.1 hlease with hlease | hlease
    · exact h.parsed lease hlease
    · rw [List.mem_singleton.1 hlease]
      exact ⟨portEnv, henv⟩
  · intro k
    have hvars : leaseVars J ⟨leaseID, outputs, L.next⟩ k = portEnv.lookup k := by rw [leaseVars, henv]; rfl
    rw [overlay_append, ← h.lookup k, HashMap.lookup_union, ← hvars]
    rfl

theorem injected_settled {final : StatusResponse} (hL : L.Sound J) (h : L.Injected J)
    (hs : L.stage.remaining = fx :: todo) (hh : L.stage.holding = true)
    (hsettled : Settled J L fx todo leaseID final t L') (hholding : L'.stage.holding = true) : L'.Injected J := by
  cases hsettled with
  | refused | unparsed => cases hholding
  | leased _ hports => exact h.leased (hL.next hs hh) hports

theorem injected_moves (hL : L.Sound J) (h : L.stage.holding = true → L.Injected J) (hm : Moves J L i t L')
    (hholding : L'.stage.holding = true) : L'.Injected J := by
  have hold : L.stage.holding = true → Local.Injected J ⟨L'.stage, L.leases, L.injectedEnv⟩ :=
    fun hh => ⟨(h hh).parsed, (h hh).lookup⟩
  cases hm with
  | call hs | pending hs | tick hs | undecided hs | started hs => exact hold (by rw [hs]; rfl)
  | took hs _ hsettled | decided hs _ hsettled =>
    have hh : L.stage.holding = true := by rw [hs]; rfl
    exact injected_settled hL (h hh) (by rw [hs]; rfl) hh hsettled hholding
  | release hs _ =>
    rw [hs] at hholding
    cases hholding
  | untaken | expire | untold | notStarted | ended | exit => cases hholding

theorem injected_run {h : List (Transition Local Input (List Event))} (hr : (runner J).Run h L) :
    L.stage.holding = true → L.Injected J := by
  refine Machine.Run.invariant hereditary_true (I := fun _ L => L.stage.holding = true → L.Injected J) ?_ ?_ hr trivial
  · rintro _ rfl _
    exact injected_start J
  · exact fun h L i t L' hr _ hL hst => injected_moves (sound_run hr) hL (moves_of_step hst)

/-- When the test can start, there is one lease for each fixture, in their order. -/
theorem Local.Sound.complete (h : L.Sound J) (hs : L.stage = .leasing []) :
    List.Forall₂ (fun lease fx => J.setup.fixtures[lease.stop]? = some fx) L.leases J.setup.fixtures := by
  have hh : L.stage.holding = true := by rw [hs]; rfl
  have hplan := h.planned hh
  rw [hs] at hplan
  have hall : J.setup.fixtures.length ≤ L.leases.length := List.drop_eq_nil_iff.1 hplan
  have hnum := h.numbered hh
  have hstop : ∀ n (hn : n < L.leases.length), L.leases[n].stop = n := by
    intro n hn
    have hget := congrArg (fun ns => ns[n]?) hnum
    simpa [List.getElem?_eq_getElem, hn] using hget
  have hlength : L.leases.length = J.setup.fixtures.length := by
    by_contra hne
    have hlast : J.setup.fixtures.length < L.leases.length := by omega
    have hknown := h.known _ (List.getElem_mem hlast)
    rw [hstop _ hlast] at hknown
    omega
  refine List.forall₂_iff_get.2 ⟨hlength, fun n hn hn' => ?_⟩
  rw [List.get_eq_getElem, List.get_eq_getElem, hstop n hn]
  exact List.getElem?_eq_getElem hn'

end RulesSystemtest.Runner
