import RulesSystemtest.Deployment.Answers

/-! The calls of a deployment agree on both sides: a call is served exactly while its
handler runs at the coordinator. A lease is handed out as succeeded only, so no runner
ever polls. -/

namespace RulesSystemtest.Deployment

open Library Runner

variable {H : Host} {D D' : State} {e : Event} {o : Obs} {h : History}

/-! ### What a step of the coordinator does to its calls -/

inductive CallMove (w : RulesSystemtest.World) (o : RulesSystemtest.Obs) (w' : RulesSystemtest.World) : Prop where
  | ended {c : CallId} {rpc : Rpc} {a : Admitted} {p : Phase} (he : ended? o = some (c, rpc))
      (hrpc : rpc = .done ∨ ∃ reply, rpc = .took reply) (hc : w.calls.lookup c = some (.running a p))
      (hw : w'.calls = w.calls.insert c .finished)
  | going {c : CallId} {a : Admitted} {p q : Phase} (he : ended? o = none)
      (hc : w.calls.lookup c = some (.running a p)) (hw : w'.calls = w.calls.insert c (.running a q))
  | idle (he : ended? o = none) (hw : w'.calls = w.calls)

theorem callMove_of_step {w w' : RulesSystemtest.World} {e : RulesSystemtest.Event} {o : RulesSystemtest.Obs}
    (he : isInternal e = true) (hst : RulesSystemtest.Step H w e o w') : CallMove w o w' := by
  cases hst with
  | enter | reject | keepalive | release | status => cases he
  | attach hc | insert hc => exact .ended rfl (.inr ⟨_, rfl⟩) hc (by simp)
  | spawnFail hc | connectFail hc | describeFail hc | createFail hc => exact .ended rfl (.inr ⟨_, rfl⟩) hc (by simp)
  | spawnPanic hc | cancelBare hc | cancelGuarded hc => exact .ended rfl (.inl rfl) hc (by simp)
  | miss hc | spawn hc | connect hc | describe hc | create hc => exact .going rfl hc rfl
  | connectAgain | exit | write => exact .idle rfl rfl

/-! ### Both sides of a call -/

def Agrees : Option Rpc → Option Call → Prop
  | none, k | some (.takeLease _), k => k = none
  | some .serving, k => ∃ a p, k = some (.running a p)
  | some _, k => ∀ a p, k ≠ some (.running a p)

/-- A call that the coordinator does not know yet is not served. -/
theorem agrees_request {rpc : Rpc} (hrpc : rpc ≠ .serving) : Agrees (some rpc) none := by
  cases rpc with
  | takeLease req => rfl
  | serving => exact absurd rfl hrpc
  | _ => exact fun _ _ => nofun

theorem Agrees.not_running {rpc : Option Rpc} {k : Option Call} (h : Agrees rpc k) (hrpc : rpc ≠ some .serving) :
    ∀ a p, k ≠ some (.running a p) := by
  rintro a p rfl
  cases rpc with
  | none => cases h
  | some rpc =>
    cases rpc with
    | takeLease => cases h
    | serving => exact hrpc rfl
    | _ => exact h a p rfl

theorem Agrees.serving {rpc : Option Rpc} {a : Admitted} {p : Phase} (h : Agrees rpc (some (.running a p))) :
    rpc = some .serving := by
  by_contra hrpc
  exact h.not_running hrpc a p rfl

structure Wired (D : State) : Prop where
  agree : ∀ c, Agrees (D.rpcs.lookup c) (D.coordinator.calls.lookup c)
  replies : ∀ c resp, D.rpcs.lookup c = some (.took (.ok resp)) → resp.status = succeeded
  unpolled : ∀ r m, D.runners.lookup r = some m → m.locals.stage.polls = false

theorem wired_start (files : FileSystem) : Wired (.start files) where
  agree c := by simp [State.start, RulesSystemtest.World.start, Agrees]
  replies := by simp [State.start]
  unpolled := by simp [State.start]

/-! ### One step -/

/-- A client changes a call that does not run, to one that is not served. -/
theorem Wired.agree_insert (hD : Wired D) {c : CallId} {rpc : Rpc}
    (hc : Agrees (some rpc) (D.coordinator.calls.lookup c)) (c' : CallId) :
    Agrees ((D.rpcs.insert c rpc).lookup c') (D.coordinator.calls.lookup c') := by
  rw [HashMap.lookup_insert]
  split
  · next heq => exact heq ▸ hc
  · exact hD.agree c'

theorem Wired.replies_insert (hD : Wired D) {c : CallId} {rpc : Rpc}
    (hrpc : ∀ resp, rpc = .took (.ok resp) → resp.status = succeeded) (c' : CallId) (resp : TakeLeaseResponse)
    (h : (D.rpcs.insert c rpc).lookup c' = some (.took (.ok resp))) : resp.status = succeeded := by
  rw [HashMap.lookup_insert] at h
  split at h
  · exact hrpc resp (Option.some.inj h)
  · exact hD.replies c' resp h

theorem Wired.unpolled_insert (hD : Wired D) {r : RunnerId} {m : Member} (hm : m.locals.stage.polls = false)
    (r' : RunnerId) (m' : Member) (h : (D.runners.insert r m).lookup r' = some m') :
    m'.locals.stage.polls = false := by
  rw [HashMap.lookup_insert] at h
  split at h
  · exact Option.some.inj h ▸ hm
  · exact hD.unpolled r' m' h

/-- A reply that grants a lease reaches its runner as it is. -/
theorem input?_granted {rpc : Rpc} {resp : TakeLeaseResponse} (h : rpc.input? = some (.took (.ok resp))) :
    rpc = .took (.ok resp) := by
  cases rpc with
  | took reply =>
    cases reply with
    | error s => cases h
    | ok resp' =>
      cases h
      rfl
  | _ => cases h

theorem wired_send (hD : Wired D) {r : RunnerId} {c : CallId} {m : Member} {i : Input} {rpc : Rpc}
    {t : List Runner.Event} {L : Local} (hm : D.runners.lookup r = some m) (hc : D.rpcs.lookup c = none)
    (hn : nextCall m.job m.locals = some (i, rpc)) (hst : m.locals.step m.job i = some (t, L)) :
    Wired { D with runners := D.runners.insert r ⟨m.job, L, some c⟩, rpcs := D.rpcs.insert c rpc } := by
  obtain ⟨hserving, htook, hi⟩ := nextCall_request hn
  constructor
  · refine hD.agree_insert ?_
    have hnone := hD.agree c
    rw [hc] at hnone
    rw [show D.coordinator.calls.lookup c = none from hnone]
    exact agrees_request hserving
  · exact hD.replies_insert fun resp heq => absurd heq (htook _)
  · refine hD.unpolled_insert (polls_moves (hD.unpolled r m hm) (moves_of_step hst) ?_)
    exact fun resp heq => absurd heq (hi _)

theorem wired_receive (hD : Wired D) {r : RunnerId} {c : CallId} {m : Member} {i : Input} {rpc : Rpc}
    {t : List Runner.Event} {L : Local} (hm : D.runners.lookup r = some m) (hc : D.rpcs.lookup c = some rpc)
    (hi : rpc.input? = some i) (hst : m.locals.step m.job i = some (t, L)) :
    Wired { D with runners := D.runners.insert r ⟨m.job, L, none⟩, rpcs := D.rpcs.insert c .done } := by
  constructor
  · refine hD.agree_insert ((hD.agree c).not_running ?_)
    rw [hc]
    rintro ⟨⟩
    cases hi
  · exact hD.replies_insert nofun
  · refine hD.unpolled_insert (polls_moves (hD.unpolled r m hm) (moves_of_step hst) ?_)
    rintro resp rfl
    -- the reply says that the lease is there
    rw [hD.replies c resp (input?_granted hi ▸ hc)]
    decide

theorem wired_arrive (hD : Wired D) {c : CallId} {rpc : Rpc} {e : RulesSystemtest.Event} {o : RulesSystemtest.Obs}
    {w : RulesSystemtest.World} (hc : D.rpcs.lookup c = some rpc) (he : rpc.request? c = some e)
    (hst : RulesSystemtest.Step H D.coordinator e o w) :
    Wired { D with coordinator := w, rpcs := D.rpcs.insert c (arrived o) } := by
  have hagree := hD.agree c
  rw [hc] at hagree
  refine ⟨fun c' => ?_, hD.replies_insert ?_, hD.unpolled⟩
  · simp only [HashMap.lookup_insert]
    cases rpc with
    | takeLease req =>
      cases he
      have hcalls : c' ≠ c → w.calls.lookup c' = D.coordinator.calls.lookup c' :=
        fun hne => hst.other_calls nofun (by rintro req' ⟨⟩; exact hne rfl)
      split
      · next heq =>
        subst heq
        cases hst with
        | enter _ _ => exact ⟨_, _, by rw [setCall_calls, HashMap.lookup_insert, if_pos rfl]⟩
        | reject _ _ => exact fun a p => by simp
      · next hne =>
        rw [hcalls hne]
        exact hD.agree c'
    | status leaseID | keepalive leaseID | releaseLease leaseID =>
      cases he
      cases hst
      split
      · next heq =>
        subst heq
        exact hagree
      · exact hD.agree c'
    | serving | took | told | done => cases he
  · intro resp heq
    cases hst <;> cases heq

theorem wired_serve (hD : Wired D) {e : RulesSystemtest.Event} {o : RulesSystemtest.Obs}
    {w : RulesSystemtest.World} (he : isInternal e = true) (hst : RulesSystemtest.Step H D.coordinator e o w) :
    Wired { D with coordinator := w, rpcs := endCall D.rpcs (ended? o) } := by
  have hreplies : ∀ c rpc, ended? o = some (c, rpc) → ∀ resp, rpc = .took (.ok resp) → resp.status = succeeded := by
    rintro c rpc hended resp rfl
    cases hst <;> cases hended <;> rfl
  cases callMove_of_step he hst with
  | @ended c rpc a p hended hrpc hc hw =>
    rw [hended]
    refine ⟨fun c' => ?_, hD.replies_insert (hreplies c rpc hended), hD.unpolled⟩
    simp only [endCall, hw, HashMap.lookup_insert]
    split
    · rcases hrpc with rfl | ⟨reply, rfl⟩ <;> exact fun a p => nofun
    · exact hD.agree c'
  | @going c a p q hended hc hw =>
    rw [hended]
    refine ⟨fun c' => ?_, hD.replies, hD.unpolled⟩
    simp only [endCall, hw, HashMap.lookup_insert]
    split
    · next heq =>
      subst heq
      have hagree := hD.agree c'
      rw [hc] at hagree
      rw [hagree.serving]
      exact ⟨a, q, rfl⟩
    · exact hD.agree c'
  | idle hended hw =>
    rw [hended]
    refine ⟨fun c' => ?_, hD.replies, hD.unpolled⟩
    simp only [endCall, hw]
    exact hD.agree c'

theorem wired_step (hD : Wired D) (hst : Step H D e o D') : Wired D' := by
  cases hst with
  | start hr => exact ⟨hD.agree, hD.replies, hD.unpolled_insert rfl⟩
  | send hm hc hn hst => exact wired_send hD hm hc hn hst
  | receive hm _ hc hi hst => exact wired_receive hD hm hc hi hst
  | act hm hi hst =>
    refine ⟨hD.agree, hD.replies, hD.unpolled_insert (polls_moves (hD.unpolled _ _ hm) (moves_of_step hst) ?_)⟩
    rintro resp rfl
    cases hi
  | crash hm =>
    refine ⟨hD.agree, hD.replies, fun r m h => ?_⟩
    rw [HashMap.lookup_erase] at h
    split at h
    · cases h
    · exact hD.unpolled r m h
  | beat hm hc hl =>
    refine ⟨hD.agree_insert ?_, hD.replies_insert nofun, hD.unpolled⟩
    exact (hD.agree _).not_running (by rw [hc]; exact nofun)
  | arrive hc he hst => exact wired_arrive hD hc he hst
  | lose hc hf =>
    refine ⟨hD.agree_insert ((hD.agree _).not_running ?_), hD.replies_insert nofun, hD.unpolled⟩
    rw [hc]
    rintro ⟨⟩
    cases hf
  | serve he hst => exact wired_serve hD he hst

theorem Runs.wired (hr : Runs H h D) : Wired D := by
  refine Machine.Run.invariant hereditary_true (I := fun _ D => Wired D) ?_ ?_ hr trivial
  · rintro _ ⟨files, rfl⟩
    exact wired_start files
  · exact fun h D e o D' _ _ hD hst => wired_step hD (step_cases hst)

end RulesSystemtest.Deployment
