import Mathlib.Data.Finset.Card
import Mathlib.Data.List.TakeWhile
import ScheduledDb.App.Bootstrap

/-!
# What discovery does to a node

Discovery calls `Connect` with the address of every node it finds.  The callback drops the node's own
address, notes the others down for the bootstrap, and has Raft add a server of the id that
`derivePeerID` makes of the address.

* The peer tracker waits for as many *other* nodes as the cluster has nodes in all.  With exactly
  these it is signalled only if discovery knows the node under another address than it advertises
  (`threshold_reachable_iff`).
* The id is what the host has before its first dot.  That is the pod's name of a DNS name, and an
  IPv6 literal as a whole, but no more than the first number of an IPv4 literal: two peers of one
  network are one server to Raft (`peers_collide`).
-/

namespace ScheduledDb

open Program Finset List

/-! ## The peer tracker -/

namespace PeerTracker

/-- A tracker with threshold `n` that was told the addresses `seen`. -/
structure Knows (pt : PeerTracker) (n : ℕ) (seen : Finset String) : Prop where
  threshold : pt.threshold = n
  nodup : pt.addresses.Nodup
  waiting : pt.closed = false → pt.addresses.toFinset = seen
  closed_iff : pt.closed = true ↔ n ≤ seen.card

lemma knows_new {n : ℕ} (hn : 0 < n) : (newPeerTracker n).Knows n ∅ where
  threshold := rfl
  nodup := nodup_nil
  waiting := fun _ => rfl
  closed_iff := by simp [newPeerTracker, hn.ne']

/-- Addresses that were reported before are not counted again, and a closed tracker stays so. -/
lemma Knows.add {pt : PeerTracker} {n : ℕ} {seen : Finset String} (h : pt.Knows n seen)
    (addr : String) : (pt.add addr).Knows n (insert addr seen) := by
  cases hclosed : pt.closed with
  | true =>
    have hsame : pt.add addr = pt := by simp [PeerTracker.add, hclosed]
    have hle := card_le_card (subset_insert addr seen)
    have hn := h.closed_iff.mp hclosed
    rw [hsame]
    exact ⟨h.threshold, h.nodup, by simp [hclosed], by simp [hclosed, hn.trans hle]⟩
  | false =>
    have hseen : (pt.addresses.insert addr).toFinset = insert addr seen := by
      ext a
      simp [← h.waiting hclosed]
    have hcard : (pt.addresses.insert addr).length = (insert addr seen).card := by
      rw [← hseen, toFinset_card_of_nodup h.nodup.insert]
    simp only [PeerTracker.add, hclosed, Bool.false_eq_true, if_false, h.threshold, hcard]
    exact ⟨rfl, h.nodup.insert, fun _ => hseen, by simp⟩

end PeerTracker

namespace NodeConfig

variable {node : NodeConfig} {s : Cluster} {seen : Finset String} {n : ℕ}

/-- The tracker of a fresh node after discovery has reported the addresses. -/
def trackerAfter (node : NodeConfig) (bootstrapExpect : ℕ) (reports : List String)
    (env : ℕ → ClusterEnv) : PeerTracker :=
  (run clusterStep (forEach reports node.connect) env (freshCluster bootstrapExpect)).1.tracker
    node.nodeID

/-- `AddPeer` has no part in it. -/
lemma wp_tracker_addPeer (node : NodeConfig) (id address : String) (s : Cluster) :
    wp clusterStep (fun _ => True) (node.addPeer id address) (fun _ s' => s'.tracker = s.tracker)
      s := by
  simp only [addPeer, perform_bind, wp_step, wp_ite]
  refine fun e _ => ⟨fun _ e' _ => ⟨fun _ => rfl, fun _ e'' _ => ?_⟩, fun _ => rfl⟩
  simp only [clusterStep]
  cases e''.addVoterError with
  | none => rfl
  | some err => rfl

/-- What a report does to the addresses that the node was told of. -/
def sawPeer (node : NodeConfig) (seen : Finset String) (addr : String) : Finset String :=
  if addr = node.raftAdvertise then seen else insert addr seen

lemma wp_connect (h : (s.tracker node.nodeID).Knows n seen) (addr : String) :
    wp clusterStep (fun _ => True) (node.connect addr)
      (fun _ s' => (s'.tracker node.nodeID).Knows n (node.sawPeer seen addr)) s := by
  simp only [connect, wp_ite, sawPeer]
  refine ⟨fun hself => ?_, fun hother => ?_⟩
  · rw [if_pos hself]
    exact h
  · simp only [perform_bind, wp_step, if_neg hother]
    refine fun e _ => wp_seq (node.wp_tracker_addPeer _ _ _) fun _ s' hs' => ?_
    simp only [pure_eq, wp_done, hs', clusterStep, Function.update_self]
    exact h.add addr

lemma wp_discover (reports : List String) (h : (s.tracker node.nodeID).Knows n seen) :
    wp clusterStep (fun _ => True) (forEach reports node.connect)
      (fun _ s' => (s'.tracker node.nodeID).Knows n (reports.foldl node.sawPeer seen)) s := by
  induction reports generalizing s seen with
  | nil => exact h
  | cons addr reports ih =>
    rw [forEach]
    exact wp_seq (wp_connect h addr) fun _ s' hs' => ih hs'

lemma foldl_sawPeer (reports : List String) (seen : Finset String) :
    reports.foldl node.sawPeer seen = seen ∪ reports.toFinset.erase node.raftAdvertise := by
  induction reports generalizing seen with
  | nil => simp
  | cons addr reports ih =>
    rw [foldl_cons, ih, toFinset_cons]
    by_cases hself : addr = node.raftAdvertise
    · simp [sawPeer, hself, erase_insert_eq_erase]
    · rw [sawPeer, if_neg hself, erase_insert_of_ne hself, insert_union,
        union_insert]

/-- **When the tracker is signalled**: as soon as enough addresses besides the node's own have been
reported. -/
lemma closed_trackerAfter_iff (hn : 0 < n) (reports : List String) (env : ℕ → ClusterEnv) :
    (node.trackerAfter n reports env).closed = true ↔
      n ≤ (reports.toFinset.erase node.raftAdvertise).card := by
  have hknows : (node.trackerAfter n reports env).Knows n (reports.foldl node.sawPeer ∅) :=
    wp_run (wp_discover reports (PeerTracker.knows_new hn)) fun _ => trivial
  rw [hknows.closed_iff, foldl_sawPeer, empty_union]

/-- **The threshold can be reached** by the nodes of the cluster exactly if discovery knows the node
under another address than it advertises.  Discovery reports the `addrs`, and `own` is the one that
it has for the node itself; the node expects as many as there are. -/
theorem threshold_reachable_iff (node : NodeConfig) (addrs : List String) (hnodup : addrs.Nodup)
    (hn : 2 ≤ addrs.length) (own : String) :
    (∀ (reports : List String) (env : ℕ → ClusterEnv), (∀ addr ∈ reports, addr ∈ addrs) →
      ((∀ addr ∈ addrs, addr ∈ reports) →
        (node.trackerAfter addrs.length reports env).closed = true) ∧
      ((node.trackerAfter addrs.length reports env).closed = true →
        addrs.length - 1 ≤ (reports.toFinset.erase own).card)) ↔
    node.raftAdvertise ∉ addrs := by
  have hpos : 0 < addrs.length := by omega
  have hcard : addrs.toFinset.card = addrs.length := toFinset_card_of_nodup hnodup
  constructor
  · -- the node's own address is missing among those that count
    intro hreach hself
    have hclosed := (hreach addrs (fun _ => {}) fun _ h => h).1 fun _ h => h
    rw [closed_trackerAfter_iff hpos, card_erase_of_mem (mem_toFinset.mpr hself),
      hcard] at hclosed
    omega
  · intro hself reports env hreports
    rw [closed_trackerAfter_iff hpos]
    refine ⟨fun hall => ?_, fun hclosed => ?_⟩
    · have hsub : addrs.toFinset ⊆ reports.toFinset.erase node.raftAdvertise := by
        intro addr haddr
        have hmem := mem_toFinset.mp haddr
        refine mem_erase.mpr ⟨fun heq => hself (heq ▸ hmem), ?_⟩
        exact mem_toFinset.mpr (hall addr hmem)
      rw [← hcard]
      exact card_le_card hsub
    · have hle := card_le_card (erase_subset node.raftAdvertise reports.toFinset)
      have hpred := pred_card_le_card_erase (s := reports.toFinset) (a := own)
      omega

/-- Three nodes, discovered by name where the node advertises a number. -/
theorem threshold_reached_by_name :
    let addrs := ["a.nodes:7000", "b.nodes:7000", "c.nodes:7000"]
    let node : NodeConfig := ⟨"a", "10.0.0.1:7000"⟩
    node.raftAdvertise ∉ addrs ∧
      (node.trackerAfter 3 ["b.nodes:7000", "a.nodes:7000", "b.nodes:7000", "c.nodes:7000"]
        fun _ => {}).closed = true := by
  intro addrs node
  have hself : node.raftAdvertise ∉ addrs := by decide
  have hreach := (threshold_reachable_iff node addrs (by decide) (by decide) "a.nodes:7000").mpr
    hself
  exact ⟨hself, (hreach _ _ (by decide)).1 (by decide)⟩

/-- **Three of three are not enough**: every node of the cluster has been reported, and the tracker
still waits. -/
theorem threshold_out_of_reach :
    let addrs := ["a.nodes:7000", "b.nodes:7000", "c.nodes:7000"]
    let node : NodeConfig := ⟨"a", "a.nodes:7000"⟩
    addrs.Nodup ∧ node.raftAdvertise ∈ addrs ∧
      (node.trackerAfter 3 addrs fun _ => {}).addresses = ["c.nodes:7000", "b.nodes:7000"] ∧
      (node.trackerAfter 3 addrs fun _ => {}).closed = false := by
  decide

end NodeConfig

/-! ## Peer ids -/

/-- An address as discovery reports it.  No host has brackets, and no port a colon. -/
structure PeerAddress where
  host : List Char
  port : List Char
  host_plain : '[' ∉ host ∧ ']' ∉ host
  port_plain : ':' ∉ port ∧ '[' ∉ port ∧ ']' ∉ port

/-- `net.JoinHostPort`: a host with colons in it is put into brackets. -/
def PeerAddress.text (a : PeerAddress) : String :=
  String.ofList
    ((if ':' ∈ a.host then '[' :: a.host ++ [']'] else a.host) ++ ':' :: a.port)

/-- What `SplitHostPort` does with what is before the last colon. -/
lemma splitHost_append {front port : List Char} (hport : ':' ∉ port) :
    splitHost (front ++ ':' :: port) =
      if front.head? = some '[' then
        if front.getLast? = some ']' ∧ ']' ∉ front.dropLast ∧ '[' ∉ (front ++ ':' :: port).tail
            ∧ ']' ∉ (front ++ ':' :: port).drop front.length then
          some front.tail.dropLast
        else none
      else if ':' ∈ front ∨ '[' ∈ front ++ ':' :: port ∨ ']' ∈ front ++ ':' :: port then none
      else some front := by
  have hlast : ((front ++ ':' :: port).reverse.dropWhile (· ≠ ':')).reverse = front ++ [':'] := by
    have hskip : ∀ c ∈ port.reverse, decide (c ≠ ':') = true := by
      intro c hc
      have hmem := List.mem_reverse.mp hc
      simpa using fun heq : c = ':' => hport (heq ▸ hmem)
    rw [List.reverse_append, List.reverse_cons, List.append_assoc,
      List.dropWhile_append_of_pos hskip]
    simp
  unfold splitHost
  rw [hlast]
  cases front with
  | nil => simp
  | cons c front =>
    have hdrop : (c :: (front ++ [':'])).dropLast = c :: front := by
      rw [← List.cons_append, List.dropLast_concat]
    simp [hdrop]

/-- **The port is split off.** -/
lemma PeerAddress.splitHost_text (a : PeerAddress) : splitHost a.text.toList = some a.host := by
  obtain ⟨hopen, hclose⟩ := a.host_plain
  obtain ⟨hcolon, hopen', hclose'⟩ := a.port_plain
  rw [text, String.toList_ofList]
  split_ifs with hsix
  · rw [splitHost_append hcolon, if_pos (by simp), if_pos]
    · simp
    · rw [getLast?_concat, dropLast_concat]
      simp [hopen, hclose, hopen', hclose']
  · have hhead : a.host.head? ≠ some '[' := fun heq => hopen (mem_of_mem_head? heq)
    rw [splitHost_append hcolon, if_neg hhead, if_neg]
    simp [hsix, hopen, hclose, hopen', hclose']

/-- What a host has before its first dot. -/
def firstLabel (host : List Char) : List Char := host.takeWhile (· ≠ '.')

variable {host : List Char} {a : PeerAddress} {id : String} {server : Server} {m : Membership}

lemma firstLabel_of_no_dot (h : '.' ∉ host) : firstLabel host = host :=
  takeWhile_eq_self_iff.mpr fun c hc => by
    simpa using fun heq : c = '.' => h (heq ▸ hc)

/-- **The id of a peer** is the first label of its host. -/
lemma derivePeerID_text (h : firstLabel a.host ≠ []) :
    derivePeerID a.text = String.ofList (firstLabel a.host) := by
  rw [derivePeerID, a.splitHost_text]
  by_cases hdot : '.' ∈ a.host
  · exact if_pos ⟨hdot, h⟩
  · simp [hdot, firstLabel_of_no_dot hdot]

/-- Four numbers up to 255, without leading zeros. -/
def IsIPv4 (host : List Char) : Prop :=
  ∃ a b c d : Fin 256, host = (Nat.repr a).toList ++ '.' :: (Nat.repr b).toList ++
    '.' :: (Nat.repr c).toList ++ '.' :: (Nat.repr d).toList

/-- Every IPv6 literal has a colon, and none starts with a dot. -/
def IsIPv6 (host : List Char) : Prop := ':' ∈ host ∧ host.head? ≠ some '.'

instance (host : List Char) : Decidable (IsIPv6 host) := inferInstanceAs (Decidable (_ ∧ _))

/-- What `net.ParseIP` accepts, of either kind. -/
def IsIPLiteral (host : List Char) : Prop := IsIPv4 host ∨ IsIPv6 host

/-- A DNS name starts with a label, and has no colon. -/
def IsDNSName (host : List Char) : Prop := ':' ∉ host ∧ firstLabel host ≠ []

/-- The hosts are different IP literals, or DNS names with different first labels. -/
def PeerAddress.DifferentHosts (a b : PeerAddress) : Prop :=
  (IsIPLiteral a.host ∧ IsIPLiteral b.host ∧ a.host ≠ b.host) ∨
    (IsDNSName a.host ∧ IsDNSName b.host ∧ firstLabel a.host ≠ firstLabel b.host)

/-- `Store.RemovePeer` on a node that leads or not, and whose Raft may refuse. -/
def removePeer (membership : Membership) (leader : Bool) (raftError : Option String)
    (servers : List Server) (id : String) : List Server × Option String :=
  if leader = true then
    match raftError with
    | some err => (servers, some ("failed to remove peer: " ++ err))
    | none => (membership.removeServer servers id, none)
  else (servers, some "cannot remove peer: not leader")

/-- What is documented of Raft's membership changes: they concern servers of the given id only. -/
structure Membership.KeepsOthers (m : Membership) : Prop where
  addVoter : ∀ servers server, ∀ other ∈ servers, other.id ≠ server.id →
    other ∈ m.addVoter servers server
  removeServer : ∀ servers id, ∀ other ∈ servers, other.id ≠ id → other ∈ m.removeServer servers id

lemma Membership.replacing_keepsOthers : Membership.replacing.KeepsOthers where
  addVoter := by
    intro servers server other hother hid
    simp only [Membership.replacing]
    split_ifs
    · exact mem_map.mpr ⟨other, hother, if_neg hid⟩
    · exact mem_append_left _ hother
  removeServer := by
    intro servers id other hother hid
    simp [Membership.replacing, hother, hid]

/-- `AddPeer` leaves the servers of other ids. -/
lemma wp_servers_addPeer (hm : m.KeepsOthers) (node : NodeConfig) {address : String} {s : Cluster}
    (hserver : server ∈ (s.raft node.nodeID).servers) (hid : server.id ≠ id) :
    wp clusterStep (fun e => e.membership = m) (node.addPeer id address)
      (fun _ s' => server ∈ (s'.raft node.nodeID).servers) s := by
  simp only [NodeConfig.addPeer, perform_bind, wp_step, wp_ite]
  refine fun e _ => ⟨fun _ e' _ => ⟨fun _ => hserver, fun _ e'' hmember => ?_⟩, fun _ => hserver⟩
  simp only [clusterStep, hmember]
  cases e''.addVoterError with
  | some err => exact hserver
  | none => simpa using hm.addVoter _ _ server hserver hid

lemma mem_removePeer (hm : m.KeepsOthers) {servers : List Server} (hserver : server ∈ servers)
    (hid : server.id ≠ id) (leader : Bool) (raftError : Option String) :
    server ∈ (removePeer m leader raftError servers id).1 := by
  unfold removePeer
  split_ifs
  · cases raftError with
    | some err => exact hserver
    | none => exact hm.removeServer servers id server hserver hid
  · exact hserver

lemma IsIPLiteral.firstLabel_ne_nil (h : IsIPLiteral host) : firstLabel host ≠ [] := by
  have hdigits : ∀ a : Fin 256, (Nat.repr a).toList ≠ [] ∧ (Nat.repr a).toList.head? ≠ some '.' := by
    decide +kernel
  have hhead : host ≠ [] ∧ host.head? ≠ some '.' := by
    rcases h with ⟨a, b, c, d, rfl⟩ | ⟨hcolon, hdot⟩
    · obtain ⟨hne, hfirst⟩ := hdigits a
      refine ⟨by simp, ?_⟩
      rwa [append_assoc, append_assoc, head?_append_of_ne_nil _ hne]
    · exact ⟨ne_nil_of_mem hcolon, hdot⟩
  obtain ⟨c, rest, rfl⟩ := exists_cons_of_ne_nil hhead.1
  have hc : c ≠ '.' := by simpa using hhead.2
  simp [firstLabel, hc]

/-- **The id of an IP literal** is the literal, unless it has a dot. -/
lemma derivePeerID_literal_iff (h : IsIPLiteral a.host) :
    derivePeerID a.text = String.ofList a.host ↔ '.' ∉ a.host := by
  rw [derivePeerID_text h.firstLabel_ne_nil]
  refine ⟨fun heq hdot => ?_, fun hdot => by rw [firstLabel_of_no_dot hdot]⟩
  have hsame : firstLabel a.host = a.host := String.ofList_injective heq
  have hnone := takeWhile_eq_self_iff.mp hsame '.' hdot
  simp at hnone

/-- What discovery needs of the ids of two peers: the id of an IP literal is the literal, and if the
hosts are different, then so are the ids, and what `AddPeer` and `RemovePeer` do to the server of the
one they do not do to that of the other. -/
structure Membership.KeepsApart (m : Membership) (a b : PeerAddress) : Prop where
  literal : ∀ x ∈ [a, b], IsIPLiteral x.host → derivePeerID x.text = String.ofList x.host
  ids : a.DifferentHosts b → derivePeerID a.text ≠ derivePeerID b.text
  addPeer : a.DifferentHosts b → ∀ (node : NodeConfig) (env : ℕ → ClusterEnv) (s : Cluster),
    (∀ i, (env i).membership = m) →
    ∀ server ∈ (s.raft node.nodeID).servers, server.id = derivePeerID b.text →
      server ∈ ((run clusterStep (node.addPeer (derivePeerID a.text) a.text) env s).1.raft
        node.nodeID).servers
  removePeer : a.DifferentHosts b → ∀ leader raftError servers, ∀ server ∈ servers,
    server.id = derivePeerID b.text →
      server ∈ (removePeer m leader raftError servers (derivePeerID a.text)).1

/-- **Peers are kept apart** exactly if none of them has an IP literal with a dot for its host. -/
theorem peers_kept_apart {m : Membership} (hm : m.KeepsOthers) (a b : PeerAddress) :
    m.KeepsApart a b ↔ ∀ x ∈ [a, b], IsIPLiteral x.host → '.' ∉ x.host := by
  constructor
  · intro h x hx hliteral
    exact (derivePeerID_literal_iff hliteral).mp (h.literal x hx hliteral)
  · intro hdot
    have hliteral : ∀ x ∈ [a, b], IsIPLiteral x.host → derivePeerID x.text = String.ofList x.host :=
      fun x hx h => (derivePeerID_literal_iff h).mpr (hdot x hx h)
    have hids : a.DifferentHosts b → derivePeerID a.text ≠ derivePeerID b.text := by
      rintro (⟨ha, hb, hne⟩ | ⟨ha, hb, hne⟩)
      · rw [hliteral a (by simp) ha, hliteral b (by simp) hb]
        exact fun heq => hne (String.ofList_injective heq)
      · rw [derivePeerID_text ha.2, derivePeerID_text hb.2]
        exact fun heq => hne (String.ofList_injective heq)
    refine ⟨hliteral, hids, ?_, ?_⟩
    · intro hdiff node env s hmember server hserver hid
      have hother : server.id ≠ derivePeerID a.text := fun heq => hids hdiff (heq.symm.trans hid)
      exact wp_run (wp_servers_addPeer hm node hserver hother) hmember
    · intro hdiff leader raftError servers server hserver hid
      have hother : server.id ≠ derivePeerID a.text := fun heq => hids hdiff (heq.symm.trans hid)
      exact mem_removePeer hm hserver hother leader raftError

/-- Two IPv6 hosts. -/
theorem peers_kept_apart_ipv6 :
    derivePeerID "[fd00::1]:7000" = "fd00::1" ∧
      derivePeerID "[fd00::1]:7000" ≠ derivePeerID "[fd00::2]:7000" := by
  let a : PeerAddress := ⟨"fd00::1".toList, "7000".toList, by decide, by decide⟩
  let b : PeerAddress := ⟨"fd00::2".toList, "7000".toList, by decide, by decide⟩
  have ha : IsIPLiteral a.host := Or.inr (by decide)
  have hb : IsIPLiteral b.host := Or.inr (by decide)
  have hapart : Membership.replacing.KeepsApart a b :=
    (peers_kept_apart Membership.replacing_keepsOthers a b).mpr (by simp [a, b])
  exact ⟨hapart.literal a (by simp) ha, hapart.ids (Or.inl ⟨ha, hb, by decide⟩)⟩

/-- **Two peers, one id**: of an IPv4 literal the first number is left, and the second peer takes the
first one's place in the configuration. -/
theorem peers_collide :
    let leader : ClusterEnv := { leader := true }
    let node : NodeConfig := ⟨"db-0", "10.0.0.1:7000"⟩
    let s : Cluster :=
      { freshCluster 3 with
        raft := fun _ => ⟨true, [⟨"db-0", "10.0.0.1:7000"⟩, ⟨"10", "10.0.0.2:7000"⟩]⟩ }
    IsIPLiteral "10.0.0.2".toList ∧ IsIPLiteral "10.0.0.3".toList ∧
      derivePeerID "10.0.0.2:7000" = "10" ∧ derivePeerID "10.0.0.3:7000" = "10" ∧
      ((run clusterStep (node.connect "10.0.0.3:7000") (fun _ => leader) s).1.raft "db-0").servers
        = [⟨"db-0", "10.0.0.1:7000"⟩, ⟨"10", "10.0.0.3:7000"⟩] := by
  refine ⟨Or.inl ⟨10, 0, 0, 2, by decide⟩, Or.inl ⟨10, 0, 0, 3, by decide⟩, by decide, by decide, ?_⟩
  decide

end ScheduledDb
