import RulesSystemtest.Runner.Config

/-! What the runner does, as a trace: the calls that it makes and the replies that it
gets, the keepalive loops that it starts and stops, the inner test, the report, and the
time that passes in between. The answers of its environment are arguments of the
functions that ask for them. A tick is a nanosecond. -/

namespace RulesSystemtest.Runner

/-! ### Data -/

/-- A lease that the runner holds. `stop` is the keepalive loop that it can cancel. -/
structure ActiveLease where
  id : String
  outputs : BTreeMap Value
  stop : ℕ
  deriving DecidableEq

/-- How a started test binary came to an end: with a status, by a signal, or in a way
that `Wait` could not tell. -/
inductive TestEnd where
  | exited (status : ℕ)
  | signaled
  | lost (err : String)
  deriving DecidableEq

structure JunitFailure where
  message : String
  text : String
  deriving DecidableEq

/-- Times are durations, which the report gives in seconds. -/
structure JunitTestcase where
  name : String
  classname : String
  time : ℕ
  failure : Option JunitFailure
  deriving DecidableEq

structure JunitTestsuite where
  name : String
  tests : ℕ
  failures : ℕ
  time : ℕ
  testCases : List JunitTestcase
  deriving DecidableEq

/-! ### Events -/

/-- Calls of `TakeLease` are numbered, and so are the keepalive loops of their leases. -/
inductive Event where
  | takeLease (n : ℕ) (req : TakeLeaseRequest)
  | takeLeaseReply (n : ℕ) (resp : TakeLeaseResponse)
  | status (n : ℕ) (leaseID : String)
  | statusReply (n : ℕ) (resp : StatusResponse)
  | startKeepalive (n : ℕ) (leaseID : String)
  | portsParsed (n : ℕ) (portEnv : Env)
  | stopKeepalive (n : ℕ)
  | releaseLease (lease : ActiveLease)
  | testStarted (binaryPath : String) (args : List String) (env : Multiset Bytes)
  | testEnded (how : TestEnd)
  | report (path : String) (suite : JunitTestsuite)
  | elapse (ticks : ℕ)
  deriving DecidableEq

def isStartKeepalive : Event → Bool
  | .startKeepalive _ _ => true
  | _ => false

/-- A result, and what was done to get it. -/
structure Logged (α : Type) where
  result : α
  trace : List Event

/-- The time that a trace takes. -/
def clock : List Event → ℕ
  | [] => 0
  | .elapse ticks :: t => ticks + clock t
  | _ :: t => clock t

variable {t u : List Event}

theorem clock_append : clock (t ++ u) = clock t + clock u := by
  induction t with
  | nil => exact (Nat.zero_add _).symm
  | cons e t ih =>
    cases e with
    | elapse ticks => rw [List.cons_append, clock, ih, clock, Nat.add_assoc]
    | _ => exact ih

/-! ### Around an event -/

/-- The first part of a trace is before every event that is not in it. -/
theorem before_of_split {before after : List Event} {e : Event} (he : e ∉ t) (h : t ++ u = before ++ e :: after) :
    ∃ c, before = t ++ c ∧ u = c ++ e :: after := by
  rcases List.append_eq_append_iff.1 h with h | ⟨c, hc, hce⟩
  · exact h
  · cases c with
    | nil => exact ⟨[], by simpa using hc.symm, hce.symm⟩
    | cons x c =>
      cases hce
      exact absurd (by simp [hc]) he

/-- The last part of a trace is after every event that is not in it. -/
theorem after_of_split {before after : List Event} {e : Event} (he : e ∉ u) (h : t ++ u = before ++ e :: after) :
    ∃ c, t = before ++ e :: c ∧ after = c ++ u := by
  rcases List.append_eq_append_iff.1 h with ⟨c, -, rfl⟩ | ⟨c, rfl, hce⟩
  · exact absurd (List.mem_append_right _ List.mem_cons_self) he
  · cases c with
    | nil =>
      rw [List.nil_append] at hce
      exact absurd (hce ▸ List.mem_cons_self) he
    | cons x c =>
      cases hce
      exact ⟨c, rfl, rfl⟩

end RulesSystemtest.Runner
