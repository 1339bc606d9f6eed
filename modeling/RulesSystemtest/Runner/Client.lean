import RulesSystemtest.Library.Separator
import RulesSystemtest.Runner.Config

/-! Client identity. The hashed bytes are the node id, the user name and the workspace,
with a NUL between them. The node id may contain a NUL but has a fixed length, the user
name ends at the first NUL after it, and the rest is the workspace, so two clients have
one id only if the digest confuses them. -/

namespace RulesSystemtest.Runner

open Library

/-- The host, the user and the workspace of a client. -/
@[ext] structure Client where
  nodeID : Bytes
  username : Bytes
  wsKey : Bytes
  length_nodeID : nodeID.length = 6
  username_ne_nil : username ≠ []
  nul_notMem : 0 ∉ username

/-- The operating system tells the process that it runs for this client. -/
structure RunsFor (P : Process) (c : Client) : Prop where
  nodeID : P.nodeID = c.nodeID
  currentUser : P.currentUser = .ok c.username

/-- What is hashed for a client. -/
def Client.bytes (c : Client) : Bytes := c.nodeID ++ [0] ++ c.username ++ [0] ++ c.wsKey

theorem Client.bytes_injective : Function.Injective Client.bytes := by
  intro c c' h
  simp only [Client.bytes, List.append_assoc, List.singleton_append] at h
  obtain ⟨hnode, h⟩ := List.append_inj h (c.length_nodeID.trans c'.length_nodeID.symm)
  -- the user name is delimited by the NUL that it does not contain
  obtain ⟨huser, hws⟩ := SelfDelimiting.terminated 0 ⟨c.username, c.nul_notMem⟩ ⟨c'.username, c'.nul_notMem⟩
    c.wsKey c'.wsKey (by simpa using h)
  exact Client.ext hnode (congrArg Subtype.val huser) hws

theorem computeClientID_of_runsFor {P : Process} {c : Client} (h : RunsFor P c) :
    computeClientID P c.wsKey = hexEncode (P.sha256 c.bytes) := by
  have huser : username P = c.username := by
    rw [username, h.currentUser]
    exact if_neg c.username_ne_nil
  rw [computeClientID, huser, h.nodeID]
  rfl

/-- Client ids separate hosts, users and workspaces, so far as the digest tells apart the
bytes that are hashed. -/
theorem computeClientID_eq_iff {P P' : Process} {c c' : Client} (hP : RunsFor P c) (hP' : RunsFor P' c')
    (hsha : P'.sha256 = P.sha256) (hinj : P.sha256 c.bytes = P.sha256 c'.bytes → c.bytes = c'.bytes) :
    computeClientID P c.wsKey = computeClientID P' c'.wsKey ↔
      c.nodeID = c'.nodeID ∧ c.username = c'.username ∧ c.wsKey = c'.wsKey := by
  rw [computeClientID_of_runsFor hP, computeClientID_of_runsFor hP', hsha, hexEncode_injective.eq_iff]
  constructor
  · intro h
    obtain rfl := Client.bytes_injective (hinj h)
    exact ⟨rfl, rfl, rfl⟩
  · rintro ⟨hnode, huser, hws⟩
    obtain rfl := Client.ext hnode huser hws
    rfl

/-- A user of some host, whose node id has zero bytes. -/
def sampleClient (username : String) (hne : utf8 username ≠ []) (hnul : 0 ∉ utf8 username) : Client :=
  ⟨[2, 0, 0, 0, 0, 1], utf8 username, utf8 "/out/runner", rfl, hne, hnul⟩

def sampleBob : Client := sampleClient "bob" (by decide) (by decide)

def sampleCarol : Client := sampleClient "carol" (by decide) (by decide)

/-- The process of the runner, for one of the two. -/
def sampleProcess (c : Client) : Process where
  executable := .ok "/runfiles/_main/runner"
  evalSymlinks _ := .ok c.wsKey
  nodeID := c.nodeID
  currentUser := .ok c.username
  sha256 b :=
    if b = sampleBob.bytes then
      [203, 246, 196, 196, 175, 95, 95, 125, 203, 231, 124, 137, 31, 252, 83, 155, 93, 179, 53, 102, 19, 94, 61, 182,
        117, 219, 1, 194, 144, 69, 247, 31]
    else
      [67, 192, 42, 47, 124, 201, 107, 145, 234, 73, 72, 71, 169, 123, 2, 235, 208, 91, 252, 227, 55, 39, 116, 155, 37,
        58, 129, 47, 188, 238, 95, 183]

theorem computeClientID_eq_iff_sample :
    computeClientID (sampleProcess sampleBob) sampleBob.wsKey ≠
      computeClientID (sampleProcess sampleCarol) sampleCarol.wsKey := by
  have hinj : (sampleProcess sampleBob).sha256 sampleBob.bytes = (sampleProcess sampleBob).sha256 sampleCarol.bytes →
      sampleBob.bytes = sampleCarol.bytes := by decide
  have hbob : RunsFor (sampleProcess sampleBob) sampleBob := ⟨rfl, rfl⟩
  have hcarol : RunsFor (sampleProcess sampleCarol) sampleCarol := ⟨rfl, rfl⟩
  intro hsame
  have hclient := (computeClientID_eq_iff hbob hcarol rfl hinj).1 hsame
  exact absurd hclient.2.1 (by decide)

end RulesSystemtest.Runner
