import Mathlib.Data.Finset.Card
import ScheduledDb.App.Bootstrap

/-!
# Forced recovery of a cluster

`Store.ForceRecoverCluster` takes the ids of the nodes that are still alive, and bootstraps a
cluster of these.  It refuses if they are no majority; but what it counts is the caller's list, and
what it puts into the new configuration are the current servers that are on it.  An id that is given
twice, or is not known at all, counts as alive and adds no server: `minority_recovers`.
-/

namespace ScheduledDb

open Program

/-- The configuration that an action bootstraps a cluster with. -/
def ClusterAct.configuration {β : Type} : ClusterAct β → Option (List Server)
  | .bootstrapCluster _ servers => some servers
  | _ => none

namespace NodeConfig

/-- The error of a recovery without a majority. -/
def insufficientAlive (aliveCount totalNodes : ℕ) : String :=
  "insufficient alive nodes for recovery: " ++ toString aliveCount ++ " alive, "
    ++ toString totalNodes ++ " total, need > " ++ toString (totalNodes / 2)

/-- The servers whose id is in the map of alive nodes. -/
def aliveServers (servers : List Server) (aliveNodeIDs : List String) : List Server :=
  servers.filter fun server => server.id ∈ aliveNodeIDs

/-- `Store.ForceRecoverCluster` -/
def forceRecoverCluster (node : NodeConfig) (aliveNodeIDs : List String) :
    Program ClusterAct (Option String) := do
  if ← perform (.isLeader node.nodeID) then
    pure (some "node is already a leader, use normal operations")
  else do
    match ← perform (.getClusterConfiguration node.nodeID) with
    | none => pure (some "failed to get cluster configuration")
    | some servers =>
      -- the length of the caller's list, not the number of servers found in it
      if aliveNodeIDs.length ≤ servers.length / 2 then
        pure (some (insufficientAlive aliveNodeIDs.length servers.length))
      else if aliveServers servers aliveNodeIDs = [] then
        pure (some "no alive servers found in configuration")
      else do
        let err ← perform (.bootstrapCluster node.nodeID (aliveServers servers aliveNodeIDs))
        pure (err.map fun err => "failed to bootstrap recovery cluster: " ++ err)

/-- The recovery reaches `BootstrapCluster` with the given configuration. -/
def Recovers (node : NodeConfig) (aliveNodeIDs : List String) (env : ℕ → ClusterEnv) (s : Cluster)
    (newServers : List Server) : Prop :=
  newServers ∈ observed clusterStep (fun _ => ClusterAct.configuration)
    (node.forceRecoverCluster aliveNodeIDs) env s

instance (node : NodeConfig) (aliveNodeIDs : List String) (env : ℕ → ClusterEnv) (s : Cluster)
    (newServers : List Server) : Decidable (node.Recovers aliveNodeIDs env s newServers) :=
  inferInstanceAs (Decidable (_ ∈ _))

variable {node : NodeConfig} {aliveNodeIDs : List String} {env : ℕ → ClusterEnv} {s : Cluster}
  {newServers : List Server}

/-- **When a recovery gets that far, and with what.** -/
lemma recovers_iff : node.Recovers aliveNodeIDs env s newServers ↔
    (((s.raft node.nodeID).hasState && (env 0).leader) = false ∧
      (env 1).configurationError = false ∧
      (s.raft node.nodeID).servers.length / 2 < aliveNodeIDs.length ∧
      aliveServers (s.raft node.nodeID).servers aliveNodeIDs ≠ []) ∧
    newServers = aliveServers (s.raft node.nodeID).servers aliveNodeIDs := by
  unfold Recovers forceRecoverCluster
  by_cases hleader : ((s.raft node.nodeID).hasState && (env 0).leader) = true
  · simp [observed, clusterStep, ClusterAct.configuration, hleader]
  · have hfollower : ((s.raft node.nodeID).hasState && (env 0).leader) = false := by
      simpa using hleader
    by_cases herror : (env 1).configurationError = true
    · simp [observed, clusterStep, ClusterAct.configuration, hfollower, herror]
    · by_cases hmany : aliveNodeIDs.length ≤ (s.raft node.nodeID).servers.length / 2
      · simp [observed, clusterStep, ClusterAct.configuration, hfollower, herror, hmany,
          not_lt.mpr hmany]
      · by_cases hnone : aliveServers (s.raft node.nodeID).servers aliveNodeIDs = []
        · simp [observed, clusterStep, ClusterAct.configuration, hfollower, herror, hmany, hnone]
        · simp [observed, clusterStep, ClusterAct.configuration, hfollower, herror, hmany, hnone,
            not_le.mp hmany]

/-- The entries of the caller's list that add no server: their id is unknown, or comes again. -/
def superfluous (servers : List Server) : List String → ℕ
  | [] => 0
  | id :: rest =>
    (if id ∉ servers.map Server.id ∨ id ∈ rest then 1 else 0) + superfluous servers rest

lemma length_eq_card {servers : List Server} (hids : (servers.map Server.id).Nodup)
    (aliveNodeIDs : List String) :
    (aliveServers servers aliveNodeIDs).length
      = ((servers.map Server.id).toFinset ∩ aliveNodeIDs.toFinset).card := by
  have hnodup : ((aliveServers servers aliveNodeIDs).map Server.id).Nodup :=
    hids.sublist (List.filter_sublist.map _)
  rw [← List.length_map Server.id, ← List.toFinset_card_of_nodup hnodup]
  congr 1
  ext id
  simp only [aliveServers, List.mem_toFinset, List.mem_map, List.mem_filter, Finset.mem_inter]
  grind

/-- The other entries add one server each. -/
lemma length_aliveServers {servers : List Server} (hids : (servers.map Server.id).Nodup)
    (aliveNodeIDs : List String) :
    (aliveServers servers aliveNodeIDs).length + superfluous servers aliveNodeIDs
      = aliveNodeIDs.length := by
  rw [length_eq_card hids]
  induction aliveNodeIDs with
  | nil => simp [superfluous]
  | cons id rest ih =>
    rw [List.toFinset_cons, superfluous, List.length_cons]
    by_cases hknown : id ∈ servers.map Server.id
    · rw [Finset.inter_insert_of_mem (List.mem_toFinset.mpr hknown)]
      by_cases hagain : id ∈ rest
      · rw [Finset.insert_eq_of_mem (Finset.mem_inter.mpr ⟨List.mem_toFinset.mpr hknown,
          List.mem_toFinset.mpr hagain⟩), if_pos (Or.inr hagain)]
        omega
      · rw [Finset.card_insert_of_notMem (by simp [hagain]), if_neg (by simp [hknown, hagain])]
        omega
    · rw [Finset.inter_insert_of_notMem (by simpa using hknown), if_pos (Or.inl hknown)]
      omega

/-- **A recovery keeps a majority** exactly if it is refused, or more than half as many entries of
the list as there are servers are neither unknown nor repeated.  A recovery is refused on a leader,
without a configuration, and if the list is too short or names no server.  Whatever the list, the new
configuration consists of the current servers that are on it. -/
theorem recovery_keeps_majority (node : NodeConfig) (aliveNodeIDs : List String)
    (env : ℕ → ClusterEnv) (s : Cluster)
    (hids : ((s.raft node.nodeID).servers.map Server.id).Nodup) :
    let servers := (s.raft node.nodeID).servers
    (∀ newServers, node.Recovers aliveNodeIDs env s newServers →
      (∀ server, server ∈ newServers ↔ server ∈ servers ∧ server.id ∈ aliveNodeIDs) ∧
        (newServers.map Server.id).Nodup ∧ servers.length < 2 * newServers.length) ↔
    ((s.raft node.nodeID).hasState && (env 0).leader) = true ∨ (env 1).configurationError = true ∨
      aliveNodeIDs.length ≤ servers.length / 2 ∨
      (∀ id ∈ aliveNodeIDs, id ∉ servers.map Server.id) ∨
      servers.length / 2 + superfluous servers aliveNodeIDs < aliveNodeIDs.length := by
  simp only [recovers_iff]
  generalize (s.raft node.nodeID).servers = servers at hids ⊢
  have hlength := length_aliveServers hids aliveNodeIDs
  have hnone : aliveServers servers aliveNodeIDs = [] ↔
      ∀ id ∈ aliveNodeIDs, id ∉ servers.map Server.id := by
    simp only [aliveServers, List.filter_eq_nil_iff, List.mem_map]
    grind
  have hspec : ∀ server, server ∈ aliveServers servers aliveNodeIDs ↔
      server ∈ servers ∧ server.id ∈ aliveNodeIDs := by simp [aliveServers]
  have hnodup : ((aliveServers servers aliveNodeIDs).map Server.id).Nodup :=
    hids.sublist (List.filter_sublist.map _)
  rw [← hnone]
  constructor
  · intro hkeeps
    by_contra hrefused
    simp only [not_or, Bool.not_eq_true, not_le] at hrefused
    obtain ⟨hfollower, hread, hmany, hsome, hfew⟩ := hrefused
    have hmajority := (hkeeps _ ⟨⟨hfollower, hread, hmany, hsome⟩, rfl⟩).2.2
    omega
  · rintro hcond newServers ⟨⟨hfollower, hread, hmany, hsome⟩, rfl⟩
    refine ⟨hspec, hnodup, ?_⟩
    rcases hcond with hleader | herror | hshort | hempty | hproper
    · simp [hleader] at hfollower
    · simp [herror] at hread
    · omega
    · exact absurd hempty hsome
    · omega

/-- A node without a leader that knows three servers. -/
def threeServers : Cluster :=
  { freshCluster 3 with
    raft := fun _ => ⟨true, [⟨"a", "a:7000"⟩, ⟨"b", "b:7000"⟩, ⟨"c", "c:7000"⟩]⟩ }

/-- Two of three. -/
theorem recovery_of_two :
    let node : NodeConfig := ⟨"a", "a:7000"⟩
    node.Recovers ["b", "a"] (fun _ => {}) threeServers [⟨"a", "a:7000"⟩, ⟨"b", "b:7000"⟩] ∧
      (threeServers.raft node.nodeID).servers.length < 2 * 2 := by
  intro node
  have hreach : node.Recovers ["b", "a"] (fun _ => {}) threeServers
      [⟨"a", "a:7000"⟩, ⟨"b", "b:7000"⟩] := by decide
  have hkeeps := (recovery_keeps_majority node ["b", "a"] (fun _ => {}) threeServers
    (by decide)).mpr (by decide)
  exact ⟨hreach, (hkeeps _ hreach).2.2⟩

/-- **A minority recovers**: one of three servers is left, but it is named twice; or it is named
together with a node that nobody knows. -/
theorem minority_recovers :
    let node : NodeConfig := ⟨"a", "a:7000"⟩
    ((threeServers.raft node.nodeID).servers.map Server.id).Nodup ∧
      (threeServers.raft node.nodeID).servers.length = 3 ∧
      node.Recovers ["a", "a"] (fun _ => {}) threeServers [⟨"a", "a:7000"⟩] ∧
      node.Recovers ["a", "x"] (fun _ => {}) threeServers [⟨"a", "a:7000"⟩] := by
  decide

end NodeConfig

end ScheduledDb
