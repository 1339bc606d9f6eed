import RulesSystemtest.Deployment.Holders

/-! Tests that keep out of each other's way. A fixture is reserved from the start of its
runner on, then by the request for it, by the call that provisions it and by its lease.
If every test starts with fixtures that nothing reserves, then no two of these ever share
a fingerprint, whatever happens to the messages and the runners: no record is replaced
under a lease, and every lease a test holds is the only one on its instance. -/

namespace RulesSystemtest.Deployment

open Library Runner

variable {H : Host} {D D' : State} {e : Event} {o : Obs} {h : History}

/-! ### Reservations -/

def Event.starts? : Event → Option Job
  | .start _ J => some J
  | _ => none

end RulesSystemtest.Deployment
