import RulesSystemtest.Runner.Schedule

/-! Keepalive calls between the reply that hands out a lease and its release. The loop
that sends them starts when the lease is acquired, so a lease is refreshed too late when
its provisioning takes too long. -/

namespace RulesSystemtest.Runner

open Library

variable {W : World} {S : Setup} {path : String} {t u before after : List Event} {p : Event → Bool} {x n : ℕ}
  {id : String}

theorem timeUntil_le {e : Event} (he : p e = true) : timeUntil p (before ++ e :: after) ≤ clock before := by
  induction before with
  | nil => simp [timeUntil, he, clock]
  | cons x before ih =>
    unfold timeUntil at ih ⊢
    rw [List.cons_append, List.takeWhile_cons]
    cases hx : p x with
    | true => exact Nat.zero_le _
    | false => cases x <;> simp [clock] at * <;> omega

theorem keepaliveInterval_pos : 0 < keepaliveInterval := Nat.mul_pos (by decide) (Nat.pow_pos (by decide))

/-! ### Keepalive calls -/

/-- A `Keepalive` for a lease id is sent at some time: a loop for this id has a tick
then, and it is not stopped yet. -/
def Sent (W : World) (t : List Event) (id : String) (x : ℕ) : Prop :=
  ∃ before n after i, t = before ++ .startKeepalive n id :: after ∧
    x = clock before + tick keepaliveInterval (W.lease n).keepaliveTook i ∧
    x < clock before + timeUntil (stops n) after

/-- The time to live in the requests of a run. -/
def ttl (S : Setup) : ℕ := S.cfg.leaseTTLSeconds.toInt.toNat * second

/-- Between the reply that hands out a lease and its release, no stretch of time longer
than `ttl` is without a `Keepalive`. -/
def KeptAlive (W : World) (ttl : ℕ) (t : List Event) : Prop :=
  ∀ before n resp after id, t = before ++ .takeLeaseReply n resp :: after → grantedId resp = some id →
    ∀ a b, clock before ≤ a → b ≤ clock before + timeUntil (releases n) after → ttl < b - a →
      ∃ x, a < x ∧ x < b ∧ Sent W t id x

/-- What the answers say of a lease that is handed out: it is released within `ttl`, or it
is granted soon enough for the first tick of its loop to come within `ttl`, and none of its
`Keepalive` calls blocks for longer than `ttl` before the release. -/
def TimelyLease (W : World) (S : Setup) (ttl n : ℕ) (h : Handout) : Prop :=
  releasedAt W S n ≤ repliedAt W S n + ttl ∨
    h.outputs.isSome ∧ provisioning (startupTimeout S) (W.lease n) + keepaliveInterval ≤ ttl ∧
      ∀ i, min ((W.lease n).keepaliveTook i)
        (releasedAt W S n - (decidedAt W S n + tick keepaliveInterval (W.lease n).keepaliveTook i)) ≤ ttl

def Timely (W : World) (S : Setup) (ttl : ℕ) : Prop :=
  ∀ n h, (handouts W 0 S.fixtures)[n]? = some h → TimelyLease W S ttl n h

/-- No two leases are handed out under one id. -/
def DistinctIds (W : World) (S : Setup) : Prop := ((handouts W 0 S.fixtures).map (·.id)).Nodup

/-! ### From the trace to the answers -/

/-- After a reply, or after the start of a loop, what comes next is at the time at which it
is in the whole trace. -/
theorem clock_add_timeUntil (hsetup : setup W path = .ok S) {e : Event} (htest : ¬ IsTestEvent e)
    (hrelease : ¬ IsReleaseEvent e) (hp : ∀ e, IsLeaseEvent e ∨ IsTestEvent e → p e = false) (he : IsLeaseEvent e)
    (hclock : clock [e] = 0) (htrace : (execute W path).trace = before ++ e :: after) :
    clock before + timeUntil p after = timeUntil p (execute W path).trace := by
  have hsplit := htrace
  rw [execute_trace hsetup] at hsplit
  obtain ⟨c, hc, -⟩ := after_of_split (notMem_rest htest hrelease) hsplit
  have hbefore : ∀ e' ∈ before, p e' = false := by
    intro e' he'
    have hmem : e' ∈ (leasing W S).trace := hc ▸ List.mem_append_left _ he'
    exact hp e' (.inl (isLeaseEvent_leaseFixtures _ _ _ _ e' hmem))
  rw [htrace, timeUntil_append hbefore, timeUntil_cons, hp e (.inl he), hclock]
  simp

/-- The calls of `Keepalive` for an id are the ticks of the loops of the leases under it. -/
theorem sent_iff (hsetup : setup W path = .ok S) : Sent W (execute W path).trace id x ↔
    ∃ n outputs i, (handouts W 0 S.fixtures)[n]? = some ⟨id, some outputs⟩ ∧
      x = decidedAt W S n + tick keepaliveInterval (W.lease n).keepaliveTook i ∧ x < releasedAt W S n := by
  constructor
  · rintro ⟨before, n, after, i, htrace, hx, hlt⟩
    obtain ⟨⟨outputs, hn⟩, hclock⟩ := (at_startKeepalive hsetup).1 ⟨before, after, htrace, rfl⟩
    rw [clock_add_timeUntil (e := .startKeepalive n id) hsetup not_false not_false (fun _ => stops_eq_false)
      trivial rfl htrace, (timeUntil_execute hsetup n).2] at hlt
    exact ⟨n, outputs, i, hn, hclock ▸ hx, hlt⟩
  · rintro ⟨n, outputs, i, hn, hx, hlt⟩
    obtain ⟨before, after, htrace, hclock⟩ := (at_startKeepalive hsetup).2 ⟨⟨outputs, hn⟩, rfl⟩
    refine ⟨before, n, after, i, htrace, hclock ▸ hx, ?_⟩
    rwa [clock_add_timeUntil (e := .startKeepalive n id) hsetup not_false not_false (fun _ => stops_eq_false)
      trivial rfl htrace, (timeUntil_execute hsetup n).2]

theorem keptAlive_iff (hsetup : setup W path = .ok S) (ttl : ℕ) : KeptAlive W ttl (execute W path).trace ↔
    ∀ n h, (handouts W 0 S.fixtures)[n]? = some h →
      ∀ a b, repliedAt W S n ≤ a → b ≤ releasedAt W S n → ttl < b - a →
        ∃ x, a < x ∧ x < b ∧ Sent W (execute W path).trace h.id x := by
  constructor
  · intro hkept n h hn a b ha hb hlong
    obtain ⟨resp, hreply, hid⟩ := handout_iff.1 ⟨h.outputs, by simpa using handout_of_handouts hn⟩
    obtain ⟨before, after, htrace, hclock⟩ := (at_reply hsetup hid).2 ⟨⟨h.outputs, hn⟩, hreply, rfl⟩
    have htime : clock before + timeUntil (releases n) after = releasedAt W S n := by
      rw [clock_add_timeUntil (e := .takeLeaseReply n resp) hsetup not_false not_false (fun _ => releases_eq_false)
        trivial rfl htrace, (timeUntil_execute hsetup n).1]
    exact hkept before n resp after h.id htrace hid a b (hclock ▸ ha) (htime ▸ hb) hlong
  · intro hkept before n resp after id htrace hid a b ha hb hlong
    obtain ⟨⟨outputs, hn⟩, -, hclock⟩ := (at_reply hsetup hid).1 ⟨before, after, htrace, rfl⟩
    have htime : clock before + timeUntil (releases n) after = releasedAt W S n := by
      rw [clock_add_timeUntil (e := .takeLeaseReply n resp) hsetup not_false not_false (fun _ => releases_eq_false)
        trivial rfl htrace, (timeUntil_execute hsetup n).1]
    exact hkept n _ hn a b (hclock ▸ ha) (htime ▸ hb) hlong

/-! ### The condition -/

/-- A lease is kept alive by its own loop exactly when it is granted, and timely. -/
theorem covered_iff (W : World) (S : Setup) (ttl n : ℕ) :
    (∀ a b, repliedAt W S n ≤ a → b ≤ releasedAt W S n → ttl < b - a → ∃ i,
      a < decidedAt W S n + tick keepaliveInterval (W.lease n).keepaliveTook i ∧
        decidedAt W S n + tick keepaliveInterval (W.lease n).keepaliveTook i < b) ↔
    releasedAt W S n ≤ repliedAt W S n + ttl ∨
      provisioning (startupTimeout S) (W.lease n) + keepaliveInterval ≤ ttl ∧
        ∀ i, min ((W.lease n).keepaliveTook i)
          (releasedAt W S n - (decidedAt W S n + tick keepaliveInterval (W.lease n).keepaliveTook i)) ≤ ttl := by
  have hfirst : repliedAt W S n ≤ decidedAt W S n := Nat.le_add_right _ _
  rw [tick_covers_iff keepaliveInterval_pos hfirst]
  refine or_congr_right (and_congr_left fun _ => ?_)
  rw [decidedAt, Nat.add_assoc, Nat.add_le_add_iff_left]

theorem keptAlive_of_timely (hsetup : setup W path = .ok S) {ttl : ℕ} (htimely : Timely W S ttl) :
    KeptAlive W ttl (execute W path).trace := by
  rw [keptAlive_iff hsetup]
  intro n h hn a b ha hb hlong
  rcases htimely n h hn with hshort | ⟨hgranted, hcovered⟩
  · omega
  · obtain ⟨outputs, hout⟩ := Option.isSome_iff_exists.1 hgranted
    obtain ⟨i, hai, hib⟩ := (covered_iff W S ttl n).2 (.inr hcovered) a b ha hb hlong
    refine ⟨_, hai, hib, (sent_iff hsetup).2 ⟨n, outputs, i, ?_, rfl, hib.trans_le hb⟩⟩
    rw [hn, ← hout]

theorem timely_of_keptAlive (hsetup : setup W path = .ok S) {ttl : ℕ} (hids : DistinctIds W S)
    (hkept : KeptAlive W ttl (execute W path).trace) : Timely W S ttl := by
  rw [keptAlive_iff hsetup] at hkept
  intro n h hn
  -- the calls for this id are those of its own loop
  have hown : ∀ x, Sent W (execute W path).trace h.id x → h.outputs.isSome ∧
      ∃ i, x = decidedAt W S n + tick keepaliveInterval (W.lease n).keepaliveTook i := by
    intro x hsent
    obtain ⟨n', outputs, i, hn', hx, -⟩ := (sent_iff hsetup).1 hsent
    have hlt : n < ((handouts W 0 S.fixtures).map (·.id)).length := by
      simpa using (List.getElem?_eq_some_iff.1 hn).1
    obtain rfl : n = n' := (List.getElem?_inj hlt hids).1 (by simp [hn, hn'])
    have hout := congrArg Handout.outputs (Option.some.inj (hn.symm.trans hn'))
    exact ⟨by rw [hout]; rfl, i, hx⟩
  by_cases hgranted : h.outputs.isSome
  · have hcovered := (covered_iff W S ttl n).1 fun a b ha hb hlong => by
      obtain ⟨x, hax, hxb, hsent⟩ := hkept n h hn a b ha hb hlong
      obtain ⟨-, i, rfl⟩ := hown x hsent
      exact ⟨i, hax, hxb⟩
    exact hcovered.imp_right fun hcovered => ⟨hgranted, hcovered⟩
  · left
    by_contra hlong
    obtain ⟨x, -, -, hsent⟩ := hkept n h hn _ _ le_rfl le_rfl (by omega)
    exact hgranted (hown x hsent).1

/-- In every run whose leases are timely, each lease is kept alive from the reply that hands
it out to its release, and in no other run if their ids are different. -/
theorem kept_alive_iff_timely (hsetup : setup W path = .ok S) :
    (Timely W S (ttl S) → KeptAlive W (ttl S) (execute W path).trace) ∧
      (DistinctIds W S → KeptAlive W (ttl S) (execute W path).trace → Timely W S (ttl S)) :=
  ⟨keptAlive_of_timely hsetup, timely_of_keptAlive hsetup⟩

/-- It is enough that every lease is granted soon, and that no call blocks for long. -/
theorem timely_of_prompt {ttl : ℕ} (h : ∀ n h, (handouts W 0 S.fixtures)[n]? = some h → h.outputs.isSome ∧
    provisioning (startupTimeout S) (W.lease n) + keepaliveInterval ≤ ttl ∧ ∀ i, (W.lease n).keepaliveTook i ≤ ttl) :
    Timely W S ttl := by
  intro n h' hn
  obtain ⟨hgranted, hfirst, hcalls⟩ := h n h' hn
  exact .inr ⟨hgranted, hfirst, fun i => (min_le_left _ _).trans (hcalls i)⟩

/-- A lease of a minute that is provisioned for twenty seconds, one that is there at once, and
a test of three minutes. A call of `Keepalive` takes a second. -/
def sampleLongTest : World :=
  sampleWorld [⟨"cache", "redis"⟩, ⟨"store", "db"⟩] (fun n =>
    { sampleLease (if n = 0 then ⟨pending, "l0", ∅, []⟩ else ⟨succeeded, "l1", ∅, []⟩)
        (List.replicate 9 ⟨0, .ok ⟨pending, ∅, []⟩⟩ ++ [⟨0, .ok ⟨succeeded, ∅, []⟩⟩]) with
      keepaliveTook := fun _ => second }) (.ran (180 * second) (.exited 0))

set_option maxRecDepth 4000 in
/-- Both leases are held for longer than they live without a `Keepalive`. -/
theorem kept_alive_iff_timely_sample :
    let S := sampleSetup [⟨"cache", "redis"⟩, ⟨"store", "db"⟩]
    (∀ n < 2, repliedAt sampleLongTest S n + 2 * ttl S < releasedAt sampleLongTest S n) ∧
      KeptAlive sampleLongTest (ttl S) (execute sampleLongTest "_main/it.run_config.json").trace := by
  intro S
  refine ⟨by decide +kernel, (kept_alive_iff_timely rfl).1 (timely_of_prompt fun n h hn => ?_)⟩
  have hall : ∀ n < 2, ((handouts sampleLongTest 0 S.fixtures)[n]?.bind (·.outputs)).isSome ∧
      provisioning (startupTimeout S) (sampleLongTest.lease n) + keepaliveInterval ≤ ttl S := by decide +kernel
  have hlength : (handouts sampleLongTest 0 S.fixtures).length = 2 := by decide
  obtain ⟨hgranted, hfirst⟩ := hall n (hlength ▸ (List.getElem?_eq_some_iff.1 hn).1)
  rw [hn] at hgranted
  exact ⟨hgranted, hfirst, fun i => show second ≤ ttl S by decide +kernel⟩

/-- No `Keepalive` is sent before the first loop starts. -/
theorem timeUntil_le_of_sent {id : String} {x : ℕ} (h : Sent W t id x) : timeUntil isStartKeepalive t ≤ x := by
  obtain ⟨before, n, after, i, rfl, rfl, -⟩ := h
  exact (timeUntil_le rfl).trans (Nat.le_add_right _ _)

/-- A lease of a minute that is provisioned for longer than that. -/
def sampleProvisioned : World :=
  sampleWorld [⟨"cache", "redis"⟩] (fun _ => sampleLease ⟨pending, "l0", ∅, []⟩
    (List.replicate 30 ⟨0, .ok ⟨pending, ∅, []⟩⟩ ++ [⟨0, .ok ⟨succeeded, ∅, []⟩⟩])) (.ran 0 (.exited 0))

set_option maxRecDepth 4000 in
/-- The lease is polled for 62 seconds, in which no `Keepalive` is sent. -/
theorem provisioned_lease_not_kept_alive : ¬ ∀ (W : World) (path : String) (S : Setup), setup W path = .ok S →
    15 < S.cfg.leaseTTLSeconds → KeptAlive W (ttl S) (execute W path).trace := by
  intro hall
  have hkept := hall sampleProvisioned "_main/it.run_config.json" (sampleSetup [⟨"cache", "redis"⟩]) rfl (by decide)
  generalize ht : (execute sampleProvisioned "_main/it.run_config.json").trace = t at hkept
  have hreply : t.drop 2 = .takeLeaseReply 0 ⟨pending, "l0", ∅, []⟩ :: t.drop 3 := by rw [← ht]; rfl
  have hsplit : t = t.take 2 ++ .takeLeaseReply 0 ⟨pending, "l0", ∅, []⟩ :: t.drop 3 := by
    rw [← hreply, List.take_append_drop]
  have hgrant : clock (t.take 2) = 0 := by rw [← ht]; decide
  have hend : timeUntil (releases 0) (t.drop 3) = 62 * second := by rw [← ht]; decide +kernel
  have hstart : timeUntil isStartKeepalive t = 62 * second := by rw [← ht]; decide +kernel
  obtain ⟨x, -, hx, hsent⟩ := hkept _ _ _ _ "l0" hsplit rfl 0 (62 * second) (by omega) (by omega) (by decide)
  have hfirst := timeUntil_le_of_sent hsent
  omega

end RulesSystemtest.Runner
