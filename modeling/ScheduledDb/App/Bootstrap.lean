import Mathlib.Data.List.Nodup
import Mathlib.Data.List.Perm.Subperm
import Mathlib.Data.Set.Insert
import Mathlib.Data.String.Basic
import ScheduledDb.Core.Interleaving

/-!
# Forming a cluster

Nodes that are started with `BootstrapExpect` wait until they have discovered enough peers; then the
one with the smallest id bootstraps a cluster of its own and adds the others.  The functions of
`internal/app.go` are programs over the actions below, one cluster for the state; Raft itself is
known by what it promises: a node without Raft state has no leader and an empty configuration, and
`BootstrapCluster` succeeds exactly on such a node.  What a configuration looks like after `AddVoter`
is up to the environment.

Two things can make a second node bootstrap.  The wait ends after a timeout with whatever peers have
been discovered, so that a node that has not heard of a smaller id takes itself for the initiator.
And every node's `monitorLeadership` bootstraps after sixty seconds without a leader, whatever its
id.  `at_most_one_bootstraps` says that there is no third way; `two_nodes_bootstrap` is the split.
-/

namespace ScheduledDb

open Program Config

/-! ## Peers -/

/-- `net.SplitHostPort`, as far as the host goes: `none` is an error. -/
def splitHost (hostport : List Char) : Option (List Char) :=
  -- the port starts after the last colon
  match (hostport.reverse.dropWhile (· ≠ ':')).reverse with
  | [] => none
  | c :: before =>
    let host := (c :: before).dropLast
    if host.head? = some '[' then
      if host.getLast? = some ']' ∧ ']' ∉ host.dropLast ∧ '[' ∉ hostport.tail
          ∧ ']' ∉ hostport.drop host.length then
        some host.tail.dropLast
      else none
    else if ':' ∈ host ∨ '[' ∈ hostport ∨ ']' ∈ hostport then none
    else some host

/-- The server id that goes with a peer's address: the first label of a DNS name. -/
def derivePeerID (addr : String) : String :=
  match splitHost addr.toList with
  | none => addr
  | some host =>
    let label := host.takeWhile (· ≠ '.')
    if '.' ∈ host ∧ label ≠ [] then String.ofList label else String.ofList host

/-- The discovered peers; `closed` is whether the channel `done` has been closed. -/
structure PeerTracker where
  addresses : List String
  threshold : ℕ
  closed : Bool

def newPeerTracker (threshold : ℕ) : PeerTracker := ⟨[], threshold, false⟩

def PeerTracker.add (pt : PeerTracker) (addr : String) : PeerTracker :=
  if pt.closed = true then pt
  else
    { pt with
      addresses := pt.addresses.insert addr
      closed := pt.threshold ≤ (pt.addresses.insert addr).length }

/-! ## The cluster -/

/-- `raft.Server` -/
structure Server where
  id : String
  address : String
  deriving DecidableEq, Repr

/-- What a node's Raft has stored. -/
structure RaftState where
  hasState : Bool := false
  servers : List Server := []

structure Cluster where
  raft : String → RaftState
  tracker : String → PeerTracker
  /-- Nodes that a leader has added: Raft will send them its log. -/
  invited : List String
  /-- The nodes whose `BootstrapCluster` succeeded. -/
  bootstrapped : List String

/-- Fresh nodes, all started with `BootstrapExpect`. -/
def freshCluster (bootstrapExpect : ℕ) : Cluster where
  raft := fun _ => {}
  tracker := fun _ => newPeerTracker bootstrapExpect
  invited := []
  bootstrapped := []

/-- What Raft makes of the configuration when a server is added or removed.  The library is not
modelled: theorems say what they ask of it. -/
structure Membership where
  addVoter : List Server → Server → List Server
  removeServer : List Server → String → List Server

/-- Membership changes as Raft makes them: a server that is added takes the place of one with its id,
or comes last. -/
def Membership.replacing : Membership where
  addVoter := fun servers server =>
    if server.id ∈ servers.map Server.id then
      servers.map fun other => if other.id = server.id then server else other
    else servers ++ [server]
  removeServer := fun servers id => servers.filter (·.id ≠ id)

/-- What one action depends on besides the cluster: elections, failures, Raft's membership changes,
the order of a map. -/
structure ClusterEnv where
  leader : Bool := false
  currentLeader : String := ""
  leaderFound : Bool := false
  configurationError : Bool := false
  addVoterError : Option String := none
  membership : Membership := .replacing
  received : List Server := []
  order : List String → List String := id
  order_perm : ∀ l, (order l).Perm l := by exact fun l => .refl l

/-- The atomic steps of the node given first. -/
inductive ClusterAct : Type → Type 1 where
  | isLeader (nodeID : String) : ClusterAct Bool
  | getLeader (nodeID : String) : ClusterAct String
  /-- `WaitForLeader`: a leader is known before the time is over. -/
  | waitForLeader (nodeID : String) : ClusterAct Bool
  | track (nodeID addr : String) : ClusterAct Unit
  /-- `peerTracker.wait`: enough peers are there, or the time is over. -/
  | wait (nodeID : String) : ClusterAct (List String)
  /-- `raft.GetConfiguration`, in `AddPeer`. -/
  | getConfiguration (nodeID : String) : ClusterAct (List Server)
  /-- `Store.GetClusterConfiguration`; `none` is an error. -/
  | getClusterConfiguration (nodeID : String) : ClusterAct (Option (List Server))
  /-- `raft.BootstrapCluster` and its error. -/
  | bootstrapCluster (nodeID : String) (servers : List Server) : ClusterAct (Option String)
  | addVoter (nodeID : String) (server : Server) : ClusterAct (Option String)
  /-- Raft's log arrives at a node that has been added. -/
  | receive (nodeID : String) : ClusterAct Unit

/-- What an action does to the cluster, and its answer. -/
def clusterStep : Handler ClusterAct ClusterEnv Cluster := fun _ a e s =>
  match a with
  | .isLeader nodeID => (s, (s.raft nodeID).hasState && e.leader)
  | .getLeader nodeID => (s, if (s.raft nodeID).hasState = true then e.currentLeader else "")
  | .waitForLeader nodeID => (s, (s.raft nodeID).hasState && e.leaderFound)
  | .track nodeID addr =>
    ({ s with tracker := Function.update s.tracker nodeID ((s.tracker nodeID).add addr) }, ())
  | .wait nodeID => (s, e.order (s.tracker nodeID).addresses)
  | .getConfiguration nodeID => (s, (s.raft nodeID).servers)
  | .getClusterConfiguration nodeID =>
    (s, if e.configurationError = true then none else some (s.raft nodeID).servers)
  | .bootstrapCluster nodeID servers =>
    if (s.raft nodeID).hasState = true then (s, some "bootstrap only works on new clusters")
    else
      ({ s with
          raft := Function.update s.raft nodeID ⟨true, servers⟩
          bootstrapped := s.bootstrapped ++ [nodeID] }, none)
  | .addVoter nodeID server =>
    match e.addVoterError with
    | some err => (s, some err)
    | none =>
      ({ s with
          raft := Function.update s.raft nodeID
            { s.raft nodeID with
              servers := e.membership.addVoter (s.raft nodeID).servers server }
          invited := s.invited ++ [server.id] }, none)
  | .receive nodeID =>
    (if nodeID ∈ s.invited then
        { s with raft := Function.update s.raft nodeID ⟨true, e.received⟩ }
      else s, ())

/-! ## The functions of the application -/

/-- The part of a node's configuration that matters here. -/
structure NodeConfig where
  nodeID : String
  raftAdvertise : String
  deriving DecidableEq, Repr

namespace NodeConfig

/-- `Store.AddPeer` -/
def addPeer (node : NodeConfig) (id address : String) : Program ClusterAct (Option String) := do
  if ← perform (.isLeader node.nodeID) then do
    let servers ← perform (.getConfiguration node.nodeID)
    if ⟨id, address⟩ ∈ servers then pure none
    else do
      match ← perform (.addVoter node.nodeID ⟨id, address⟩) with
      | some err => pure (some ("failed to add peer: " ++ err))
      | none => pure none
  else pure (some "cannot add peer: not leader")

/-- `Store.ForceBootstrap` -/
def forceBootstrap (node : NodeConfig) : Program ClusterAct (Option String) := do
  if ← perform (.isLeader node.nodeID) then pure (some "node is already a leader")
  else do
    match ← perform (.bootstrapCluster node.nodeID [⟨node.nodeID, node.raftAdvertise⟩]) with
    | some err => pure (some ("failed to force bootstrap: " ++ err))
    | none => pure none

/-- The callback `Connect` of discovery. -/
def connect (node : NodeConfig) (addr : String) : Program ClusterAct Unit := do
  if addr = node.raftAdvertise then pure ()
  else do
    perform (.track node.nodeID addr)
    let _ ← node.addPeer (derivePeerID addr) addr
    pure ()

def isBootstrapInitiator (node : NodeConfig) (peers : List String) : Bool :=
  peers.all fun addr => !decide (derivePeerID addr < node.nodeID)

def waitForBootstrap (node : NodeConfig) : Program ClusterAct Unit := do
  let peers ← perform (.wait node.nodeID)
  if node.isBootstrapInitiator peers = true then do
    let _ ← node.forceBootstrap
    let _ ← perform (.waitForLeader node.nodeID)
    if ← perform (.isLeader node.nodeID) then
      forEach peers fun addr => do
        let _ ← node.addPeer (derivePeerID addr) addr
        pure ()
    else pure ()
  else do
    let _ ← perform (.waitForLeader node.nodeID)
    pure ()

def attemptAutoBootstrap (node : NodeConfig) : Program ClusterAct (Option String) :=
  node.forceBootstrap

/-- The variables of `monitorLeadership`. -/
structure Monitor where
  wasLeader : Bool
  noLeaderCount : ℕ

/-- One tick.  `becomeLeader` and `loseLeadership` start and stop the worker and the evictor, which
have no part in forming a cluster. -/
def monitorTick (node : NodeConfig) (m : Monitor) : Program ClusterAct Monitor := do
  let isLeader ← perform (.isLeader node.nodeID)
  let currentLeader ← perform (.getLeader node.nodeID)
  let noLeaderCount := if !m.wasLeader && isLeader then 0 else m.noLeaderCount
  if currentLeader = "" then
    if noLeaderCount + 1 > 60 then do
      match ← perform (.getClusterConfiguration node.nodeID) with
      | some [] => do
          match ← node.attemptAutoBootstrap with
          | some _ => pure ⟨isLeader, noLeaderCount + 1⟩
          | none => pure ⟨isLeader, 0⟩
      | _ => pure ⟨isLeader, noLeaderCount + 1⟩
    else pure ⟨isLeader, noLeaderCount + 1⟩
  else pure ⟨isLeader, 0⟩

/-- `monitorLeadership`, for a number of ticks. -/
def monitorLeadership (node : NodeConfig) (ticks : ℕ) : Program ClusterAct Unit := do
  let wasLeader ← perform (.isLeader node.nodeID)
  let _ ← foldEach (List.range ticks) (fun m _ => node.monitorTick m) ⟨wasLeader, 0⟩
  pure ()

end NodeConfig

/-! ## Threads -/

/-- What a thread of some node does. -/
inductive Role where
  | start (node : NodeConfig)
  | monitor (node : NodeConfig) (ticks : ℕ)
  /-- Discovery reports the addresses, one after the other. -/
  | discovery (node : NodeConfig) (addrs : List String)
  /-- Raft's messages to a node. -/
  | network (nodeID : String) (messages : ℕ)
  | idle

def Role.program : Role → Program ClusterAct Unit
  | start node => node.waitForBootstrap
  | monitor node ticks => node.monitorLeadership ticks
  | discovery node addrs => forEach addrs node.connect
  | network nodeID messages => forEach (List.range messages) fun _ => perform (.receive nodeID)
  | idle => pure ()

/-- Fresh nodes at work, each with any number of threads. -/
def launch (bootstrapExpect : ℕ) (roles : ℕ → Role) : Config ClusterAct Cluster where
  state := freshCluster bootstrapExpect
  threads := fun tid => (roles tid).program

/-- Every node but `d` leaves bootstrapping to others: when its wait ends it has discovered a smaller
id, or has Raft state already; and it has Raft state when its monitor asks for the configuration,
which it does after more than sixty ticks without a leader. -/
def Defers (d : String) (c : Config ClusterAct Cluster) (_ : ℕ) (β : Type) (a : ClusterAct β)
    (_ : ClusterEnv) : Prop :=
  match a with
  | .wait nodeID =>
    nodeID = d ∨ (∃ addr ∈ (c.state.tracker nodeID).addresses, derivePeerID addr < nodeID) ∨
      (c.state.raft nodeID).hasState = true
  | .getClusterConfiguration nodeID => nodeID = d ∨ (c.state.raft nodeID).hasState = true
  | _ => True

instance (d : String) (c : Config ClusterAct Cluster) (tid : ℕ) (β : Type) (a : ClusterAct β)
    (e : ClusterEnv) : Decidable (Defers d c tid β a e) :=
  match a with
  | .wait _ => inferInstanceAs (Decidable (_ ∨ _ ∨ _))
  | .getClusterConfiguration _ => inferInstanceAs (Decidable (_ ∨ _))
  | .isLeader _ | .getLeader _ | .waitForLeader _ | .track _ _ | .getConfiguration _
  | .bootstrapCluster _ _ | .addVoter _ _ | .receive _ => isTrue trivial

/-- At most one node has bootstrapped a cluster of its own. -/
def Cluster.AtMostOne (s : Cluster) : Prop :=
  ∀ a ∈ s.bootstrapped, ∀ b ∈ s.bootstrapped, a = b

/-! ## What a thread knows

A thread's ghost value is a set of nodes that have Raft state.  Raft state is never lost, so what a
thread knows stays true whatever the others do. -/

/-- What actions tell a thread, and that it bootstraps only node `d` or a node with Raft state. -/
def deferring (d : String) : Transformer ClusterAct (Set String) := fun _ a Q known =>
  match a with
  | .wait nodeID =>
    ∀ peers, ((nodeID = d ∨ ∃ addr ∈ peers, derivePeerID addr < nodeID) → Q peers known) ∧
      Q peers (insert nodeID known)
  | .getClusterConfiguration nodeID =>
    ∀ servers, (nodeID = d → Q servers known) ∧ Q servers (insert nodeID known)
  | .bootstrapCluster nodeID _ => (nodeID = d ∨ nodeID ∈ known) ∧ ∀ r, Q r known
  | _ => ∀ r, Q r known

lemma deferring_mono (d : String) : (deferring d).Mono := by
  intro β a Q Q' known h hQ
  cases a with
  | wait nodeID =>
    intro peers
    exact ⟨fun hp => hQ _ _ ((h peers).1 hp), hQ _ _ (h peers).2⟩
  | getClusterConfiguration nodeID =>
    intro servers
    exact ⟨fun hp => hQ _ _ ((h servers).1 hp), hQ _ _ (h servers).2⟩
  | bootstrapCluster nodeID servers => exact ⟨h.1, fun r => hQ _ _ (h.2 r)⟩
  | _ => exact fun r => hQ _ _ (h r)

/-- Only `d` has bootstrapped, and what the threads know is so. -/
def OnlyOne (d : String) (s : Cluster) (known : ℕ → Set String) : Prop :=
  (∀ nodeID ∈ s.bootstrapped, nodeID = d) ∧
    ∀ t, ∀ nodeID ∈ known t, (s.raft nodeID).hasState = true

variable {β : Type} {s : Cluster} {nodeID d : String} {known : ℕ → Set String}

/-- Raft state is never lost. -/
lemma hasState_clusterStep (a : ClusterAct β) (e : ClusterEnv)
    (h : (s.raft nodeID).hasState = true) :
    ((clusterStep β a e s).1.raft nodeID).hasState = true := by
  cases a with
  | bootstrapCluster nodeID' servers =>
    simp only [clusterStep]
    split_ifs
    · exact h
    · by_cases heq : nodeID = nodeID'
      · simp [heq]
      · simpa [heq] using h
  | addVoter nodeID' server =>
    simp only [clusterStep]
    cases e.addVoterError with
    | some err => exact h
    | none =>
      by_cases heq : nodeID = nodeID'
      · simpa [heq] using heq ▸ h
      · simpa [heq] using h
  | receive nodeID' =>
    simp only [clusterStep]
    split_ifs
    · by_cases heq : nodeID = nodeID'
      · simp [heq]
      · simpa [heq] using h
    · exact h
  | _ => exact h

/-- The node an action tries to bootstrap. -/
def ClusterAct.bootstraps {β : Type} : ClusterAct β → Option String
  | .bootstrapCluster nodeID _ => some nodeID
  | _ => none

/-- Only `BootstrapCluster` bootstraps, and only a node without Raft state. -/
lemma mem_bootstrapped_clusterStep (a : ClusterAct β) (e : ClusterEnv) (s : Cluster)
    (h : nodeID ∈ (clusterStep β a e s).1.bootstrapped) :
    nodeID ∈ s.bootstrapped ∨
      a.bootstraps = some nodeID ∧ (s.raft nodeID).hasState = false := by
  cases a with
  | bootstrapCluster nodeID' servers =>
    simp only [clusterStep] at h
    split_ifs at h with hstate
    · exact Or.inl h
    · rcases List.mem_append.mp h with h | h
      · exact Or.inl h
      · obtain rfl := List.mem_singleton.mp h
        exact Or.inr ⟨rfl, by simpa using hstate⟩
  | addVoter nodeID' server =>
    simp only [clusterStep] at h
    cases herr : e.addVoterError with
    | some err | none =>
      rw [herr] at h
      exact Or.inl h
  | receive nodeID' =>
    simp only [clusterStep] at h
    split_ifs at h
    · exact Or.inl h
    · exact Or.inl h
  | _ => exact Or.inl h

/-- A step of a thread that bootstraps as it may, and then knows what is so. -/
lemma OnlyOne.step (h : OnlyOne d s known) (a : ClusterAct β) (e : ClusterEnv) (tid : ℕ)
    {now : Set String}
    (hact : ∀ nodeID, a.bootstraps = some nodeID → nodeID = d ∨ (s.raft nodeID).hasState = true)
    (hnow : ∀ nodeID ∈ now, (s.raft nodeID).hasState = true) :
    OnlyOne d (clusterStep β a e s).1 (Function.update known tid now) := by
  refine ⟨fun nodeID hmem => ?_, fun t nodeID hmem => hasState_clusterStep a e ?_⟩
  · rcases mem_bootstrapped_clusterStep a e s hmem with hmem | ⟨ha, hnone⟩
    · exact h.1 nodeID hmem
    · rcases hact nodeID ha with hd | hstate
      · exact hd
      · simp [hstate] at hnone
  · by_cases ht : t = tid
    · subst ht
      exact hnow nodeID (by simpa using hmem)
    · exact h.2 t nodeID (by simpa [ht] using hmem)

/-- **Soundness**: under the condition the actions do what `deferring` says. -/
lemma deferring_sound {c : Config ClusterAct Cluster} {tid : ℕ} (a : ClusterAct β) (e : ClusterEnv)
    {Q : β → Set String → Prop} (hcond : Defers d c tid β a e) (h : OnlyOne d c.state known)
    (ha : deferring d β a Q (known tid)) :
    ∃ now, Q (clusterStep β a e c.state).2 now ∧
      OnlyOne d (clusterStep β a e c.state).1 (Function.update known tid now) := by
  have hown := h.2 tid
  cases a with
  | wait nodeID =>
    have hperm := e.order_perm (c.state.tracker nodeID).addresses
    rcases hcond with hd | ⟨addr, hmem, hlt⟩ | hstate
    · exact ⟨known tid, (ha _).1 (Or.inl hd), h.step _ e tid (by simp [ClusterAct.bootstraps]) hown⟩
    · refine ⟨known tid, (ha _).1 (Or.inr ⟨addr, hperm.mem_iff.mpr hmem, hlt⟩), ?_⟩
      exact h.step _ e tid (by simp [ClusterAct.bootstraps]) hown
    · refine ⟨_, (ha _).2, h.step _ e tid (by simp [ClusterAct.bootstraps]) ?_⟩
      rintro node (rfl | hmem)
      · exact hstate
      · exact hown node hmem
  | getClusterConfiguration nodeID =>
    rcases hcond with hd | hstate
    · exact ⟨known tid, (ha _).1 hd, h.step _ e tid (by simp [ClusterAct.bootstraps]) hown⟩
    · refine ⟨_, (ha _).2, h.step _ e tid (by simp [ClusterAct.bootstraps]) ?_⟩
      rintro node (rfl | hmem)
      · exact hstate
      · exact hown node hmem
  | bootstrapCluster nodeID servers =>
    refine ⟨known tid, ha.2 _, h.step _ e tid ?_ hown⟩
    intro node hnode
    obtain rfl : nodeID = node := by simpa [ClusterAct.bootstraps] using hnode
    exact ha.1.imp_right (hown nodeID)
  | _ => exact ⟨known tid, ha _, h.step _ e tid (by simp [ClusterAct.bootstraps]) hown⟩

/-! ## The threads, one by one -/

namespace NodeConfig

variable {d : String} {known : Set String} (node : NodeConfig)
  {Q : Option String → Set String → Prop}

lemma defers_addPeer (id address : String) (hQ : ∀ r, Q r known) :
    wpWith (deferring d) (node.addPeer id address) Q known := by
  simp only [addPeer, perform_bind, wpWith_step]
  intro isLeader
  cases isLeader with
  | false => exact hQ _
  | true =>
    intro servers
    simp only [wpWith_ite]
    refine ⟨fun _ => hQ _, fun _ => ?_⟩
    intro r
    cases r with
    | none => exact hQ _
    | some err => exact hQ _

lemma defers_forceBootstrap (hnode : node.nodeID = d ∨ node.nodeID ∈ known) (hQ : ∀ r, Q r known) :
    wpWith (deferring d) node.forceBootstrap Q known := by
  simp only [forceBootstrap, perform_bind, wpWith_step]
  intro isLeader
  cases isLeader with
  | true => exact hQ _
  | false =>
    refine ⟨hnode, fun r => ?_⟩
    cases r with
    | none => exact hQ _
    | some err => exact hQ _

lemma defers_connect (addr : String) :
    wpWith (deferring d) (node.connect addr) (fun _ _ => True) known := by
  simp only [connect, wpWith_ite, perform_bind, wpWith_step]
  refine ⟨fun _ => trivial, fun _ _ => ?_⟩
  exact wpWith_bind.mpr (node.defers_addPeer _ _ fun _ => trivial)

/-- Once a node may bootstrap, the rest of `waitForBootstrap` asks for nothing. -/
lemma defers_waitForBootstrap :
    wpWith (deferring d) node.waitForBootstrap (fun _ _ => True) known := by
  have hrest : ∀ (peers : List String) (known : Set String),
      node.nodeID = d ∨ node.nodeID ∈ known →
      wpWith (deferring d) (if node.isBootstrapInitiator peers = true then do
          let _ ← node.forceBootstrap
          let _ ← perform (.waitForLeader node.nodeID)
          if ← perform (.isLeader node.nodeID) then
            forEach peers fun addr => do
              let _ ← node.addPeer (derivePeerID addr) addr
              pure ()
          else pure ()
        else do
          let _ ← perform (.waitForLeader node.nodeID)
          pure ()) (fun _ _ => True) known := by
    intro peers known hnode
    rw [wpWith_ite]
    refine ⟨fun _ => ?_, fun _ _ => trivial⟩
    refine wpWith_bind.mpr (node.defers_forceBootstrap hnode ?_)
    intro _ _ isLeader
    cases isLeader with
    | false => trivial
    | true =>
      refine wpWith_mono (deferring_mono d) (wpWith_forEach (deferring_mono d) (I := fun _ => True)
        peers (fun addr _ s _ => ?_) trivial) fun _ _ _ => trivial
      exact wpWith_bind.mpr (node.defers_addPeer _ _ fun _ => trivial)
  rw [waitForBootstrap, perform_bind, wpWith_step]
  intro peers
  refine ⟨?_, hrest peers _ (Or.inr (Set.mem_insert _ _))⟩
  rintro (hd | ⟨addr, hmem, hlt⟩)
  · exact hrest peers known (Or.inl hd)
  · have hnot : node.isBootstrapInitiator peers = false := by
      rw [isBootstrapInitiator, List.all_eq_false]
      exact ⟨addr, hmem, by simp [hlt]⟩
    rw [hnot]
    exact fun _ => trivial

lemma defers_monitorTick (m : Monitor) :
    wpWith (deferring d) (node.monitorTick m) (fun _ _ => True) known := by
  have hboot : ∀ (known : Set String), node.nodeID = d ∨ node.nodeID ∈ known →
      ∀ (servers : Option (List Server)) (yes no : Monitor),
      wpWith (deferring d) (match servers with
        | some [] => do
            match ← node.attemptAutoBootstrap with
            | some _ => pure no
            | none => pure yes
        | _ => pure no) (fun _ _ => True) known := by
    intro known hnode servers yes no
    split
    · refine wpWith_bind.mpr (node.defers_forceBootstrap hnode fun r => ?_)
      cases r with
      | none => trivial
      | some err => trivial
    · trivial
  rw [monitorTick, perform_bind, wpWith_step]
  intro isLeader
  rw [perform_bind, wpWith_step]
  intro currentLeader
  rw [wpWith_ite, wpWith_ite, perform_bind, wpWith_step]
  refine ⟨fun _ => ⟨fun _ servers => ?_, fun _ => trivial⟩, fun _ => trivial⟩
  exact ⟨fun hd => hboot known (Or.inl hd) servers _ _,
    hboot _ (Or.inr (Set.mem_insert _ _)) servers _ _⟩

lemma defers_monitorLeadership (ticks : ℕ) :
    wpWith (deferring d) (node.monitorLeadership ticks) (fun _ _ => True) known := by
  rw [monitorLeadership, perform_bind, wpWith_step]
  intro wasLeader
  rw [wpWith_bind]
  exact wpWith_foldEach (deferring_mono d) (I := fun _ _ => True) (List.range ticks)
    (fun _ _ m _ _ => node.defers_monitorTick m) trivial

end NodeConfig

lemma Role.defers (role : Role) {known : Set String} :
    wpWith (deferring d) role.program (fun _ _ => True) known := by
  cases role with
  | start node => exact node.defers_waitForBootstrap
  | monitor node ticks => exact node.defers_monitorLeadership ticks
  | discovery node addrs =>
    exact wpWith_forEach (deferring_mono d) (I := fun _ => True) addrs
      (fun addr _ _ _ => node.defers_connect addr) trivial
  | network nodeID messages =>
    refine wpWith_forEach (deferring_mono d) (I := fun _ => True) (List.range messages) ?_ trivial
    intro _ _ _ _ _
    trivial
  | idle => trivial

/-- **At most one node bootstraps**, whatever the threads and however they are interleaved, if all
nodes but one leave it to others. -/
theorem at_most_one_bootstraps (bootstrapExpect : ℕ) (roles : ℕ → Role) (d : String)
    (sched : List (ℕ × ClusterEnv))
    (hdefers : Along (fun _ => clusterStep) (Defers d) (launch bootstrapExpect roles) sched) :
    ((launch bootstrapExpect roles).run (fun _ => clusterStep) sched).state.AtMostOne := by
  obtain ⟨known, ⟨honly, _⟩, _⟩ := run_local (T := fun _ => deferring d) (R := fun _ _ => True)
    (I := OnlyOne d) (fun c l tid β a e Q hcond hI _ ha => deferring_sound a e hcond hI ha)
    (l := fun _ => ∅) (c := launch bootstrapExpect roles)
    ⟨by simp [launch, freshCluster], by simp⟩ (fun tid => (roles tid).defers) hdefers
  intro a ha b hb
  rw [honly a ha, honly b hb]

/-! ## Two nodes -/

namespace Bootstrap

def nodeA : NodeConfig := ⟨"a", "a.nodes:7000"⟩

def nodeB : NodeConfig := ⟨"b", "b.nodes:7000"⟩

/-- The given numbers of steps of threads, in turn. -/
def turns (plan : List (ℕ × ℕ)) (e : ClusterEnv) : List (ℕ × ClusterEnv) :=
  plan.flatMap fun turn => List.replicate turn.2 (turn.1, e)

/-- Both nodes discover each other and wait.  When their waits end, node `a` bootstraps and adds node
`b`, which does not bootstrap. -/
theorem at_most_one_bootstraps_of_two :
    let roles : ℕ → Role := fun tid =>
      [.discovery nodeA [nodeB.raftAdvertise], .discovery nodeB [nodeA.raftAdvertise],
        .start nodeA, .start nodeB, .network "b" 1].getD tid .idle
    let c := (launch 2 roles).run (fun _ => clusterStep)
      (turns [(0, 2), (1, 2), (2, 3)] {} ++ turns [(2, 5), (4, 1), (3, 2)] { leader := true })
    c.state.AtMostOne ∧ c.state.bootstrapped = ["a"] ∧ (c.state.raft "b").hasState = true := by
  intro roles c
  refine ⟨?_, by decide +kernel, by decide +kernel⟩
  exact at_most_one_bootstraps 2 roles "a" _ (along_of_test _ (by decide +kernel))

/-- **A split brain**: both nodes have discovered each other, and are still waiting for one more
peer when they have been without a leader for sixty-one ticks. -/
theorem two_nodes_bootstrap :
    let roles : ℕ → Role := fun tid =>
      [.discovery nodeA [nodeB.raftAdvertise], .discovery nodeB [nodeA.raftAdvertise],
        .start nodeA, .start nodeB, .monitor nodeA 61, .monitor nodeB 61].getD tid .idle
    let c := (launch 2 roles).run (fun _ => clusterStep)
      (turns [(0, 2), (1, 2), (4, 126), (5, 126)] {})
    derivePeerID nodeA.raftAdvertise = nodeA.nodeID ∧
      derivePeerID nodeB.raftAdvertise = nodeB.nodeID ∧
      (c.state.tracker "a").addresses = [nodeB.raftAdvertise] ∧
      (c.state.tracker "a").closed = false ∧
      c.state.bootstrapped = ["a", "b"] ∧ ¬ c.state.AtMostOne := by
  intro roles c
  have hboth : c.state.bootstrapped = ["a", "b"] := by decide +kernel
  refine ⟨by decide +kernel, by decide +kernel, by decide +kernel, by decide +kernel, hboth, ?_⟩
  intro hone
  rw [Cluster.AtMostOne, hboth] at hone
  exact absurd (hone "a" (by simp) "b" (by simp)) (by decide)

end Bootstrap

end ScheduledDb
