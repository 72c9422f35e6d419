import CekyP2P.Dht.RoutingInvariant
import CekyP2P.Node.Changes

/-!
# What an iteration adds

Two of the changes of an iteration decide where a message to an identifier goes: it adds only
contacts that a frame asks to file, and only the session that a handshake message completes.
-/

namespace CekyP2P.Node

open Crypto Dht Protocol Transfer Transport

variable {σ : Type} {S : Suite UInt8 σ} {F : Type} {f64 : F64 F}

namespace ControlPlane

/-- The contacts that an input asks the table to file. -/
def filed (n : ControlPlane S F) : Input → List (PeerId × SocketAddr)
  | .event (.frameReceived peerAddr frame) =>
    if frame.header.msgType = .handshake then []
    else
      match n.session peerAddr with
      | some session =>
        if frame.header.flags.isEncrypted then
          match (session.decrypt S.aead frame.header.requestId frame.payload).1 with
          | .ok data => filedBy peerAddr frame.header.msgType data
          | .error _ => []
        else []
      | none => []
  | _ => []

/-- The static key of the session with an address. -/
def remoteStatic (n : ControlPlane S F) (addr : SocketAddr) : Option (Vector UInt8 32) :=
  (n.session addr).map (·.remoteStatic)

section

variable {new : List (PeerId × SocketAddr)} {keys : List (SocketAddr × Vector UInt8 32)}
  {n : ControlPlane S F}

/-! ## The contacts and the sessions -/

/-- The contacts and the keys of the later state are those of the earlier one, and some new ones. -/
structure Within (filed : List (PeerId × SocketAddr))
    (established : List (SocketAddr × Vector UInt8 32)) (n n' : ControlPlane S F) : Prop where
  contacts : ∀ c ∈ n'.routingTable.contacts, c ∈ n.routingTable.contacts ∨ c ∈ filed
  keys : ∀ addr key, n'.remoteStatic addr = some key →
    n.remoteStatic addr = some key ∨ (addr, key) ∈ established

instance : Std.Refl (Within (S := S) (F := F) new keys) where
  refl _ := ⟨fun _ hc => .inl hc, fun _ _ hkey => .inl hkey⟩

instance : IsTrans (ControlPlane S F) (Within new keys) where
  trans _ _ _ h h' := by
    refine ⟨fun c hc => ?_, fun addr key hkey => ?_⟩
    · rcases h'.contacts c hc with hc | hc
      · exact h.contacts c hc
      · exact .inr hc
    · rcases h'.keys addr key hkey with hkey | hkey
      · exact h.keys addr key hkey
      · exact .inr hkey

/-- The sessions after an entry was stored. -/
theorem session_insert {n' : ControlPlane S F} {addr : SocketAddr} {state : PeerState S}
    (hstates : n'.peerStates = n.peerStates.insert addr state) (a : SocketAddr) :
    n'.session a = if a = addr then state.session else n.session a := by
  rw [session, hstates, FiniteMap.lookup_insert]
  split
  · rfl
  · rfl

/-- The sessions after an entry was removed. -/
theorem session_erase (addr a : SocketAddr) :
    session { n with peerStates := n.peerStates.erase addr } a =
      if a = addr then none else n.session a := by
  rw [session, FiniteMap.lookup_erase]
  split
  · rfl
  · rfl

/-- Taking an entry out and putting it back leaves its session. -/
theorem session_insert_erase {addr : SocketAddr} {state : PeerState S}
    (h : n.peerStates.lookup addr = some state) (a : SocketAddr) :
    session { n with peerStates := (n.peerStates.erase addr).insert addr state } a =
      n.session a := by
  rw [session, FiniteMap.lookup_insert, FiniteMap.lookup_erase]
  split
  case isTrue heq => rw [heq, session, h]
  case isFalse => rfl

/-- A change of other fields adds nothing. -/
theorem within_of_eq {n' : ControlPlane S F} (htable : n'.routingTable = n.routingTable)
    (hsession : ∀ addr, n'.session addr = n.session addr) : Within new keys n n' where
  contacts := fun _ hc => .inl (htable ▸ hc)
  keys := by
    intro addr key hkey
    rw [remoteStatic, hsession] at hkey
    exact .inl hkey

/-- A session that is put into the map has the peer that the session there had, or a new one. -/
theorem within_insert {n' : ControlPlane S F} {addr : SocketAddr} {state : PeerState S}
    (htable : n'.routingTable = n.routingTable)
    (hstates : n'.peerStates = n.peerStates.insert addr state)
    (h : ∀ session, state.session = some session →
      n.remoteStatic addr = some session.remoteStatic ∨ (addr, session.remoteStatic) ∈ keys) :
    Within new keys n n' where
  contacts := fun _ hc => .inl (htable ▸ hc)
  keys := by
    intro a key hkey
    rw [remoteStatic, session_insert hstates] at hkey
    split at hkey
    case isTrue heq =>
      subst heq
      obtain ⟨session, hsession, rfl⟩ := Option.map_eq_some_iff.mp hkey
      exact h session hsession
    case isFalse => exact .inl hkey

/-- A change adds the contact that it files or the session that it establishes, and nothing
else. -/
theorem Change.within {scope : List SocketAddr} {input : Input} {heard : Option Dispatch}
    {calls : List SealCall} {n' : ControlPlane S F}
    (h : Change f64 scope input heard keys calls n n')
    (hfiled : ∀ contact, input.Names heard contact → contact ∈ new) : Within new keys n n' := by
  cases h with
  | report | greet | seek | redirect | dial => exact within_of_eq rfl fun _ => rfl
  | file id addr now hnames =>
    refine ⟨fun c hc => ?_, fun _ _ hkey => .inl hkey⟩
    rcases RoutingTable.contacts_insert f64 n.routingTable id addr now c hc with hc | rfl
    · exact .inl hc
    · exact .inr (hfiled _ hnames)
  | await addr state _ hstate =>
    refine within_insert rfl rfl fun session hsession => ?_
    rw [hstate] at hsession
    cases hsession
  | remove addr =>
    refine ⟨fun c hc => .inl hc, fun a key hkey => .inl ?_⟩
    rw [remoteStatic, session_erase] at hkey
    split at hkey
    · cases hkey
    · exact hkey
  | putBack addr state h => exact within_of_eq rfl (session_insert_erase h)
  | encrypt addr msgType data session _ _ h =>
    refine within_insert rfl rfl ?_
    rintro _ ⟨⟩
    rw [remoteStatic, h, SecureSession.remoteStatic_encrypt]
    exact .inl rfl
  | decrypt addr frame session _ h =>
    refine within_insert rfl rfl ?_
    rintro _ ⟨⟩
    rw [remoteStatic, h, SecureSession.remoteStatic_decrypt]
    exact .inl rfl
  | establish addr sessionKeys _ _ h =>
    refine within_insert rfl rfl ?_
    rintro _ ⟨⟩
    rw [SecureSession.remoteStatic_encrypt]
    exact .inr h

/-- What an input names, it asks the table to file. -/
theorem mem_filed_of_names {input : Input} {contact : PeerId × SocketAddr}
    (h : input.Names (n.dispatched input) contact) : contact ∈ n.filed input := by
  obtain ⟨peerAddr, hmeets, d, hdispatched, hcontact⟩ := h
  obtain ⟨_, frame, session, rfl, hmsg, hsession, hencrypted, hopened, -, htype⟩ :=
    exists_of_dispatched hdispatched
  obtain rfl := List.mem_singleton.mp hmeets
  rw [filed, if_neg hmsg, hsession]
  simp only [hencrypted, if_true, hopened]
  rwa [← htype]

/-- An iteration adds no contact that the input does not file, and no key of a session that it
does not establish. -/
theorem within_step (env : Env σ) (input : Input) :
    Within (n.filed input) (n.established input) n (Exec.stateAfter (step f64 env input n)) := by
  obtain ⟨_, -, hchanges⟩ : Changes f64 _ input _ _ _ n _ := changes_step env input
  exact hchanges.lift (Q := fun _ => Within (n.filed input) (n.established input))
    (fun _ => Std.Refl.refl _) (fun h h' => IsTrans.trans _ _ _ h h')
    fun h => h.within fun _ => mem_filed_of_names

/-- One input files contacts or establishes a session, not both. -/
theorem filed_eq_nil_or (n : ControlPlane S F) (input : Input) :
    n.filed input = [] ∨ n.established input = [] := by
  cases input with
  | event event =>
    cases event with
    | frameReceived peerAddr frame =>
      by_cases hmsg : frame.header.msgType = .handshake
      · exact .inl (if_pos hmsg)
      · exact .inr (if_neg hmsg)
    | _ => exact .inl rfl
  | _ => exact .inl rfl

end

end ControlPlane

end CekyP2P.Node
