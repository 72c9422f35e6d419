import CekyP2P.Dht.Convergence
import CekyP2P.Node.Sessions

/-!
# What a lookup finds

A lookup whose queries reach running nodes. A node answers with the closest peers of its table,
and with itself alone if it is the target. As soon as everybody that the lookup keeps has answered,
its result begins with the node of the network that is closest to the target; and if the target is
no node, the result is the list of the `K` closest nodes of the network.
-/

namespace CekyP2P.Node.ControlPlane

open Crypto Dht Transfer

variable {σ : Type} {S : Suite UInt8 σ} {F : Type} {f64 : F64 F}

/-! ## The table of a running node -/

/-- The table is in order, and it is that of the node. -/
structure OwnTable (n : ControlPlane S F) : Prop where
  valid : n.routingTable.Valid
  localId_eq : n.routingTable.localId = n.peerId

/-- A node starts with a table of its own. -/
theorem ownTable_start (identity : Identity S) (peerId : PeerId) (tcpAddr : SocketAddr)
    (now : Nat) : (start identity peerId tcpAddr now : ControlPlane S F).OwnTable :=
  ⟨RoutingTable.valid_new peerId now, rfl⟩

/-- Contacts are filed in the bucket where they belong. -/
theorem Change.ownTable {scope : List SocketAddr} {input : Input} {heard : Option Dispatch}
    {completed : List (SocketAddr × Vector UInt8 32)} {calls : List SealCall}
    {n n' : ControlPlane S F} (h : Change f64 scope input heard completed calls n n')
    (hown : n.OwnTable) : n'.OwnTable := by
  cases h with
  | file id addr now =>
    have hkeeps : RoutingTable.Keeps n.routingTable
        (RoutingTable.insert f64 id addr now n.routingTable) := hown.valid.keeps_insert id addr now
    exact ⟨hkeeps.valid, hkeeps.localId_eq.trans hown.localId_eq⟩
  | _ => exact ⟨hown.valid, hown.localId_eq⟩

/-- Along every run the table stays the node's own. -/
theorem ownTable_of_reachable {P : ControlPlane S F → Input → Prop} {first n : ControlPlane S F}
    (h : Reachable f64 P first n) (hown : first.OwnTable) : n.OwnTable := by
  induction h with
  | start => exact hown
  | @step n n' env input _ _ hstep ih =>
    obtain ⟨_, -, hchanges⟩ : Changes f64 _ input _ _ _ n
        (Exec.stateAfter (step f64 env input n)) :=
      changes_step env input
    rw [hstep] at hchanges
    exact hchanges.lift (Q := fun _ n n' => n.OwnTable → n'.OwnTable) (fun _ => id)
      (fun h h' => h' ∘ h) (fun h => h.ownTable) ih

/-! ## Answers -/

variable {network supplied : Finset PeerId} {target id : PeerId}

variable (S f64) in
/-- A running node of some identifier, which knows the network, has answered a request for a
target, and its answer was supplied to the lookup. -/
def Answers (network : Finset PeerId) (target : PeerId) (supplied : Finset PeerId) (id : PeerId) :
    Prop :=
  ∃ (identity : Identity S) (tcpAddr : SocketAddr) (now : Nat) (n : ControlPlane S F),
    Reachable f64 (fun _ _ => True) (start identity id tcpAddr now) n ∧
      n.routingTable.Knows network ∧ ∀ p ∈ n.closestPeers target, ⟨p.1⟩ ∈ supplied

/-- The answers of nodes are answers as the walk expects them. -/
theorem Answers.answered (h : Answers S f64 network target supplied id) (hne : target ≠ id) :
    XorTree.Answered PeerId.number target.number K network supplied id := by
  obtain ⟨identity, tcpAddr, now, n, hreach, hknows, hsupplied⟩ := h
  have hown := ownTable_of_reachable hreach (ownTable_start identity id tcpAddr now)
  have hid : n.peerId = id := (sameNode_of_reachable hreach).peerId_eq
  have hclosest : n.closestPeers target =
      (n.routingTable.findClosest target K).map fun p => (p.peerId.bytes, p.addr) := by
    rw [closestPeers, if_neg (hid ▸ hne)]
    rfl
  rw [hclosest, List.forall_mem_map] at hsupplied
  have hanswered := hown.valid.answered hknows hsupplied
  rw [hown.localId_eq, hid] at hanswered
  exact hanswered

/-- Once everybody that a lookup keeps has answered it, its result begins with the node that is
closest to the target, and is the list of the closest nodes if the target is none of them. -/
theorem closest_of_answers {seeds : List PeerEntry} {calls : List LookupCall}
    (hseeds : seeds ≠ []) (hnetwork : IterativeLookup.suppliedIds seeds calls ⊆ network)
    (hanswers : ∀ id ∈ IterativeLookup.returnedIds target seeds calls,
      Answers S f64 network target (IterativeLookup.suppliedIds seeds calls) id)
    (hdone : (IterativeLookup.run target seeds calls).nextToQuery.1 = []) :
    (∃ p, (IterativeLookup.run target seeds calls).result.closest.head? = some p ∧
      p.peerId ∈ network ∧ ∀ id ∈ network, p.peerId.distance target ≤ id.distance target) ∧
    (target ∉ network → Least (fun id : PeerId => id.distance target) K network
      ((IterativeLookup.run target seeds calls).result.closest.map (·.peerId))) := by
  have hknown := IterativeLookup.least_knownPeers target seeds calls
  have hall : ∀ id ∈ (IterativeLookup.run target seeds calls).knownPeers.map (·.peerId),
      Answers S f64 network target (IterativeLookup.suppliedIds seeds calls) id :=
    fun id hid => hanswers id (IterativeLookup.mem_returnedIds_of_nextToQuery_eq_nil hdone hid)
  obtain ⟨p, hhead, hp, hnearest⟩ := IterativeLookup.exists_head_closest target calls hseeds
  have hid := List.mem_map_of_mem (f := (·.peerId)) hp
  constructor
  · refine ⟨p, hhead, hnetwork (hknown.subset _ hid), fun id hmem => ?_⟩
    rw [PeerId.distance_eq_xor, PeerId.distance_eq_xor]
    by_cases htarget : target = p.peerId
    · rw [htarget, Nat.xor_self]
      exact Nat.zero_le _
    · obtain ⟨table, answer, hpopulated, hanswer, hsupplied⟩ :=
        ((hall _ hid).answered htarget).answer
      exact XorTree.nearest_of_answered PeerId.number_injective (by decide) hpopulated hanswer
        (fun x hx => hnearest x (hsupplied x hx)) hmem
  · intro htarget
    have hleast := XorTree.least_of_answered PeerId.number_injective (by decide : K ≤ K * 3) hknown
      (List.ne_nil_of_mem hid) hnetwork fun id hid => (hall id hid).answered fun heq =>
        htarget (heq ▸ hnetwork (hknown.subset _ hid))
    rw [IterativeLookup.result, List.map_take]
    refine hleast.of_key fun a b => ?_
    rw [PeerId.distance_eq_xor, PeerId.distance_eq_xor]

/-- A node that hears of the listener as the listener hears of its caller. -/
def caller : ControlPlane xorSuite Nat :=
  start (xorIdentity callerKey) callerId callerAddr 0

/-- The calls of a lookup that begins at the caller and is told of the listener. -/
def callsToBoth : List LookupCall :=
  [.nextToQuery, .processResponses [IterativeLookup.samplePeer 0], .nextToQuery,
    .processResponses [IterativeLookup.samplePeer 7]]

/-- A lookup for an identifier between the two nodes. -/
theorem closest_of_two :
    Least (fun id : PeerId => id.distance ⟨Vector.replicate 32 1⟩) K {listener.peerId, callerId}
      ((IterativeLookup.run ⟨Vector.replicate 32 1⟩ [IterativeLookup.samplePeer 7]
        callsToBoth).result.closest.map (·.peerId)) := by
  have hheard : Reachable wholeF64 (fun _ _ => True) caller
      ((callerInputs listener.peerId).foldl
        (fun n input => Exec.stateAfter (step wholeF64 quietEnv input n)) caller) :=
    Reachable.start.foldl quietEnv (by decide +kernel)
  have hcalled : Reachable wholeF64 (fun _ _ => True) listener (called callerId) :=
    Reachable.start.foldl quietEnv (by decide +kernel)
  have hids : ∀ id ∈ IterativeLookup.returnedIds ⟨Vector.replicate 32 1⟩
      [IterativeLookup.samplePeer 7] callsToBoth, id = callerId ∨ id = listener.peerId := by
    decide +kernel
  have hanswers : ∀ id ∈ IterativeLookup.returnedIds ⟨Vector.replicate 32 1⟩
      [IterativeLookup.samplePeer 7] callsToBoth,
      Answers xorSuite wholeF64 {listener.peerId, callerId} ⟨Vector.replicate 32 1⟩
        (IterativeLookup.suppliedIds [IterativeLookup.samplePeer 7] callsToBoth) id := by
    intro id hid
    rcases hids id hid with rfl | rfl
    · exact ⟨_, _, _, _, hheard, by decide +kernel, by decide +kernel⟩
    · exact ⟨_, _, _, _, hcalled, by decide +kernel, by decide +kernel⟩
  exact (closest_of_answers (List.cons_ne_nil _ _) (by decide +kernel) hanswers
    (by decide +kernel)).2 (by decide +kernel)

end CekyP2P.Node.ControlPlane
