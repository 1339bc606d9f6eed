import RulesSystemtest.Runner.Adequacy

/-! Every run of the runner, step by step, is fed by some host: whatever the inputs were, a
host can be told from them that answers so. It is found from the end of the run, where
nothing is asked any more, each step putting its own input before those that follow. -/

namespace RulesSystemtest.Runner

open Library

variable {J : Job} {W W' : World} {L L' : Local} {i : Input} {t : List Event} {k : ℕ}
  {h : List (Transition Local Input (List Event))}

/-! ### Hosts -/

/-- Two hosts that differ only in what the coordinator and the test answer. -/
def SameHost (W W' : World) : Prop :=
  ∃ lease test, W' = { W with lease := lease, test := test } ∧ ∀ n, (lease n).range = (W.lease n).range

theorem SameHost.refl (W : World) : SameHost W W := ⟨W.lease, W.test, rfl, fun _ => rfl⟩

theorem SameHost.trans {W W' W'' : World} (h : SameHost W W') (h' : SameHost W' W'') : SameHost W W'' := by
  obtain ⟨lease, test, rfl, hrange⟩ := h
  obtain ⟨lease', test', rfl, hrange'⟩ := h'
  exact ⟨lease', test', rfl, fun n => (hrange' n).trans (hrange n)⟩

theorem SameHost.jobOf {W W' : World} (h : SameHost W W') (S : Setup) : jobOf W' S = jobOf W S := by
  obtain ⟨lease, test, rfl, hrange⟩ := h
  simp [Runner.jobOf, hrange]

theorem SameHost.setup {W W' : World} (h : SameHost W W') (path : String) : setup W' path = setup W path := by
  obtain ⟨lease, test, rfl, -⟩ := h
  rfl

/-- Other answers to one call of `TakeLease` and to the polls after it. -/
def World.answering (W : World) (n : ℕ) (takeLease : Except String TakeLeaseResponse) (polls : List PollAnswer) : World :=
  { W with lease := Function.update W.lease n { W.lease n with takeLease := takeLease, polls := polls } }

theorem sameHost_answering (W : World) (n : ℕ) (takeLease : Except String TakeLeaseResponse)
    (polls : List PollAnswer) : SameHost W (W.answering n takeLease polls) := by
  refine ⟨_, W.test, rfl, fun k => ?_⟩
  by_cases hk : k = n
  · subst hk
    rw [Function.update_self]
  · rw [Function.update_of_ne hk]

theorem sameHost_test (W : World) (test : TestAnswer) : SameHost W { W with test := test } :=
  ⟨W.lease, test, rfl, fun _ => rfl⟩

theorem answering_self {n : ℕ} {takeLease : Except String TakeLeaseResponse} {polls : List PollAnswer} :
    (W.answering n takeLease polls).lease n = { W.lease n with takeLease := takeLease, polls := polls } :=
  Function.update_self ..

theorem answering_later {n m : ℕ} (hm : n < m) {takeLease : Except String TakeLeaseResponse} {polls : List PollAnswer} :
    (W.answering n takeLease polls).lease m = W.lease m := Function.update_of_ne (by omega) _ _

/-! ### One input -/

/-- The host that gives this input, and then answers as before. -/
def World.giving (W : World) (L : Local) : Input → World
  | .took reply => W.answering L.next reply (W.lease L.next).polls
  | .told reply => W.answering L.next (W.lease L.next).takeLease (⟨0, reply⟩ :: (W.lease L.next).polls)
  | .expire => W.answering L.next (W.lease L.next).takeLease []
  | .start (some err) => { W with test := .notStarted err }
  | .ended how took => { W with test := .ran took how }
  | _ => W

theorem sameHost_giving (W : World) (L : Local) (i : Input) : SameHost W (W.giving L i) := by
  cases i with
  | took | told | expire => exact sameHost_answering ..
  | start failure =>
    cases failure with
    | none => exact .refl W
    | some err => exact sameHost_test ..
  | ended => exact sameHost_test ..
  | _ => exact .refl W

/-- The host answers what was asked for. -/
def Ready (W : World) (L : Local) : Prop :=
  match L.stage with
  | .asking _ _ _ => (W.lease L.next).polls ≠ []
  | .testing => W.test.failure? = none
  | _ => True

theorem ready_giving (h : Moves J L i t L') : Ready (W.giving L i) L := by
  cases h with
  | untold hs | undecided hs | decided hs =>
    rw [Ready, hs]
    simp [World.giving, answering_self]
  | ended hs =>
    rw [Ready, hs]
    rfl
  | call hs | untaken hs | pending hs | took hs | tick hs | expire hs | notStarted hs | started hs | release hs
  | exit hs =>
    rw [Ready, hs]
    trivial

/-- As long as no lease is given back, `W'` still has to answer what `W` answers. -/
structure Ahead (k : ℕ) (L : Local) (W' W : World) : Prop where
  takeLease : L.stage.holding = true → L.stage.polls = false →
    (W'.lease L.next).takeLease = (W.lease L.next).takeLease
  polls : L.stage.holding = true → (W'.lease L.next).polls.drop k = (W.lease L.next).polls
  later : L.stage.holding = true → ∀ n, L.next < n → W'.lease n = W.lease n
  test : L.stage.holding = true → W'.test = W.test

theorem ahead_of_not_holding (h : L.stage.holding = false) : Ahead k L W' W := by
  constructor <;> simp [h]

theorem feeds_of_ahead (hm : Moves J L i t L') (hready : Ready W L') (ha : Ahead k L W' (W.giving L i)) :
    Feeds W' L k i := by
  cases hm with
  | call | release | exit => trivial
  | untaken hs | pending hs | took hs =>
    have htake := ha.takeLease (by rw [hs]; rfl) (by rw [hs]; rfl)
    rwa [World.giving, answering_self] at htake
  | tick hs =>
    have hpolls := ha.polls (by rw [hs]; rfl)
    rw [Feeds, ← not_le, ← List.drop_eq_nil_iff, hpolls]
    exact hready
  | expire hs =>
    have hpolls := ha.polls (by rw [hs]; rfl)
    rw [World.giving, answering_self] at hpolls
    exact List.drop_eq_nil_iff.1 hpolls
  | untold hs | undecided hs | decided hs =>
    have hpolls := ha.polls (by rw [hs]; rfl)
    rw [World.giving, answering_self] at hpolls
    have hnext := congrArg List.head? hpolls
    rw [List.head?_drop] at hnext
    exact ⟨_, hnext, rfl⟩
  | notStarted hs =>
    rw [Feeds, ha.test (by rw [hs]; rfl)]
    rfl
  | started hs =>
    rw [Feeds, ha.test (by rw [hs]; rfl)]
    exact hready
  | ended hs => exact ha.test (by rw [hs]; rfl)

/-- A lease that is granted leaves the answers for the fixtures after it. -/
theorem ahead_leased {l : ActiveLease} {todo : List ResolvedFixture} {env : Env} (ha : Ahead k L W' (W.giving L i))
    (hh : L.stage.holding = true) (hi : ∀ failure, i ≠ .start failure) (hi' : ∀ how took, i ≠ .ended how took) :
    Ahead 0 ⟨.leasing todo, L.leases ++ [l], env⟩ W' W := by
  have hgiving : ∀ n, L.next < n → (W.giving L i).lease n = W.lease n := by
    intro n hn
    cases i with
    | took | told | expire => exact answering_later hn
    | start failure => exact absurd rfl (hi failure)
    | ended how took => exact absurd rfl (hi' how took)
    | _ => rfl
  have htest : (W.giving L i).test = W.test := by
    cases i with
    | start failure => exact absurd rfl (hi failure)
    | ended how took => exact absurd rfl (hi' how took)
    | _ => rfl
  have hlater : ∀ n, L.next < n → W'.lease n = W.lease n := fun n hn => (ha.later hh n hn).trans (hgiving n hn)
  have hnext : L.next < (⟨.leasing todo, L.leases ++ [l], env⟩ : Local).next := by simp [Local.next]
  constructor
  · exact fun _ _ => by rw [hlater _ hnext]
  · exact fun _ => by rw [hlater _ hnext]; rfl
  · exact fun _ n hn => hlater n (hnext.trans hn)
  · exact fun _ => (ha.test hh).trans htest

theorem ahead_settled {fx : ResolvedFixture} {todo : List ResolvedFixture} {leaseID : String} {final : StatusResponse}
    (hsettled : Settled J L fx todo leaseID final t L') (ha : Ahead k L W' (W.giving L i)) (hh : L.stage.holding = true)
    (hi : ∀ failure, i ≠ .start failure) (hi' : ∀ how took, i ≠ .ended how took) :
    Ahead (repliesAfter k i L') L' W' W := by
  cases hsettled with
  | refused | unparsed => exact ahead_of_not_holding rfl
  | leased => exact ahead_leased ha hh hi hi'

theorem ahead_step (hm : Moves J L i t L') (hk : L.stage.polls = false → k = 0) (ha : Ahead k L W' (W.giving L i)) :
    Ahead (repliesAfter k i L') L' W' W := by
  cases hm with
  | untaken | expire | untold | notStarted | ended | exit => exact ahead_of_not_holding rfl
  | release hs => exact ahead_of_not_holding (by rw [hs]; rfl)
  | took hs _ hsettled | decided hs _ hsettled => exact ahead_settled hsettled ha (by rw [hs]; rfl) nofun nofun
  | call hs | started hs =>
    obtain rfl := hk (by rw [hs]; rfl)
    obtain ⟨htake, hpolls, hlater, htest⟩ := ha
    rw [hs] at htake hpolls hlater htest
    exact ⟨fun _ _ => htake rfl rfl, fun _ => hpolls rfl, fun _ => hlater rfl, fun _ => htest rfl⟩
  | pending hs =>
    obtain ⟨-, hpolls, hlater, htest⟩ := ha
    rw [hs] at hpolls hlater htest
    rw [World.giving, answering_self] at hpolls
    exact ⟨nofun, fun _ => hpolls rfl, fun _ n hn => (hlater rfl n hn).trans (answering_later hn), fun _ => htest rfl⟩
  | tick hs =>
    obtain ⟨-, hpolls, hlater, htest⟩ := ha
    rw [hs] at hpolls hlater htest
    exact ⟨nofun, fun _ => hpolls rfl, fun _ => hlater rfl, fun _ => htest rfl⟩
  | undecided hs =>
    obtain ⟨-, hpolls, hlater, htest⟩ := ha
    rw [hs] at hpolls hlater htest
    rw [World.giving, answering_self] at hpolls
    refine ⟨nofun, fun _ => ?_, fun _ n hn => (hlater rfl n hn).trans (answering_later hn), fun _ => htest rfl⟩
    change List.drop (k + 1) _ = _
    rw [← List.tail_drop]
    exact congrArg List.tail (hpolls rfl)

/-! ### The whole run -/

theorem replies_eq_zero (hr : (runner J).Run h L) (hp : L.stage.polls = false) : replies h = 0 := by
  cases hr with
  | init => rfl
  | step => simp [replies, repliesAfter, hp]

/-- Some host fed the run. -/
theorem exists_fed (hr : (runner J).Run h L) (W : World) (hready : Ready W L) :
    ∃ W', SameHost W W' ∧ Along (Fed W') h ∧ Ahead (replies h) L W' W := by
  induction hr generalizing W with
  | init => exact ⟨W, .refl W, trivial, fun _ _ => rfl, fun _ => rfl, fun _ _ _ => rfl, fun _ => rfl⟩
  | @step h L L' i t hr hst ih =>
    have hm := moves_of_step hst
    obtain ⟨W', hsame, hfed, ha⟩ := ih (W.giving L i) (ready_giving hm)
    exact ⟨W', (sameHost_giving W L i).trans hsame, ⟨feeds_of_ahead hm hready ha, hfed⟩,
      ahead_step hm (replies_eq_zero hr) ha⟩

/-! ### The replies to TakeLease -/

/-- The replies to `TakeLease` in a run, in their order. -/
def takeLeaseReplies : List (Transition Local Input (List Event)) → List (Except String TakeLeaseResponse)
  | [] => []
  | tr :: h =>
    match tr.event with
    | .took reply => takeLeaseReplies h ++ [reply]
    | _ => takeLeaseReplies h

theorem next_settled {fx : ResolvedFixture} {todo : List ResolvedFixture} {leaseID : String} {final : StatusResponse}
    (h : Settled J L fx todo leaseID final t L') (hh : L'.stage.holding = true) :
    L'.next = L.next + 1 ∧ L'.stage.polls = false := by
  cases h with
  | refused | unparsed => cases hh
  | leased => simp [Local.next, Stage.polls]

/-- There is one for each lease that is held, and for the one that is polled for. -/
theorem length_takeLeaseReplies (hr : (runner J).Run h L) (hh : L.stage.holding = true) :
    (takeLeaseReplies h).length = if L.stage.polls then L.next + 1 else L.next := by
  induction hr with
  | init hL =>
    obtain rfl := hL
    rfl
  | @step h L L' i t hr hst ih =>
    cases moves_of_step hst with
    | call hs | started hs =>
      rw [hs] at ih
      exact ih rfl
    | pending hs =>
      rw [hs] at ih
      simpa [takeLeaseReplies, Stage.polls, Local.next] using ih rfl
    | took hs _ hsettled =>
      rw [hs] at ih
      obtain ⟨hnext, hpolls⟩ := next_settled hsettled hh
      rw [hnext, hpolls]
      simpa [takeLeaseReplies, Stage.polls] using ih rfl
    | tick hs | undecided hs =>
      rw [hs] at ih
      exact ih rfl
    | decided hs _ hsettled =>
      rw [hs] at ih
      obtain ⟨hnext, hpolls⟩ := next_settled hsettled hh
      rw [hnext, hpolls]
      simpa [takeLeaseReplies, Stage.polls] using ih rfl
    | release hs =>
      rw [hs] at hh
      cases hh
    | untaken | expire | untold | notStarted | ended | exit => cases hh

theorem length_replies_taking (hr : (runner J).Run h L) {fx : ResolvedFixture} {todo : List ResolvedFixture}
    (hs : L.stage = .taking fx todo) : (takeLeaseReplies h).length = L.next := by
  rw [length_takeLeaseReplies hr (by rw [hs]; rfl), hs]
  rfl

/-- Only the reply to a call of `TakeLease` adds one. -/
theorem takeLeaseReplies_cons (h : List (Transition Local Input (List Event))) (hst : L.step J i = some (t, L')) :
    (∃ reply fx todo, i = .took reply ∧ L.stage = .taking fx todo ∧
      takeLeaseReplies (⟨L, i, t, L'⟩ :: h) = takeLeaseReplies h ++ [reply]) ∨
    (∀ fx todo, L.stage ≠ .taking fx todo) ∧ takeLeaseReplies (⟨L, i, t, L'⟩ :: h) = takeLeaseReplies h := by
  cases moves_of_step hst with
  | untaken hs | pending hs | took hs => exact .inl ⟨_, _, _, rfl, hs, rfl⟩
  | _ hs => exact .inr ⟨fun fx todo => by rw [hs]; exact nofun, rfl⟩

/-- In a run that a host feeds they are the answers of the host, one fixture after the
other. -/
theorem takeLeaseReplies_of_fed (hr : (runner J).Run h L) (hfed : Along (Fed W) h) :
    takeLeaseReplies h = (List.range (takeLeaseReplies h).length).map fun n => (W.lease n).takeLease := by
  induction hr with
  | init => rfl
  | @step h L L' i t hr hst ih =>
    obtain ⟨hi, hfed⟩ := hfed
    rcases takeLeaseReplies_cons h hst with ⟨reply, fx, todo, rfl, hs, heq⟩ | ⟨-, heq⟩
    · have hreply : (W.lease L.next).takeLease = reply := hi
      rw [heq, List.length_append, List.length_singleton, List.range_succ, List.map_append, ← ih hfed,
        length_replies_taking hr hs, List.map_singleton, hreply]
    · rw [heq]
      exact ih hfed

/-- Each call but the last was replied to, and the last one too unless it is waited for. -/
theorem takeLease_replied (hr : (runner J).Run h L) {n : ℕ} {req : TakeLeaseRequest}
    (hev : .takeLease n req ∈ eventsOf h) : n < (takeLeaseReplies h).length ∨
      n = (takeLeaseReplies h).length ∧ ∃ fx todo, L.stage = .taking fx todo := by
  induction hr with
  | init => cases hev
  | @step h L L' i t hr hst ih =>
    rcases List.mem_append.1 hev with hold | hnew
    · rcases takeLeaseReplies_cons h hst with ⟨reply, fx, todo, rfl, hs, heq⟩ | ⟨hs, heq⟩
      · rw [heq, List.length_append, List.length_singleton]
        have := ih hold
        omega
      · rw [heq]
        refine (ih hold).imp id ?_
        rintro ⟨-, fx, todo, htaking⟩
        exact absurd htaking (hs fx todo)
    · obtain ⟨rfl, rfl, fx, todo, hs, rfl⟩ := takeLease_moves (moves_of_step hst) hnew
      refine .inr ⟨?_, fx, todo, rfl⟩
      change L.next = (takeLeaseReplies h).length
      rw [length_takeLeaseReplies hr (by rw [hs]; rfl), hs]
      rfl

end RulesSystemtest.Runner
