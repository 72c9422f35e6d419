import CekyP2P.Crypto.NoiseAgreement
import CekyP2P.Crypto.NoiseAuth

/-!
# Mutual authentication over whole runs

The invariant of one call carried through every run. The initiator's side is
authenticated always; the responder's side is exactly as good as the ephemeral key
it was sent, and an adversary that sends its own can name any honest node.
-/

namespace CekyP2P.Crypto

/-- Nothing has happened yet. -/
theorem World.inv_start : World.start.Inv :=
  ⟨by simp [start], by simp [start], by simp [start], by simp [start]⟩

/-- A new handshake changes nothing that was known or done. -/
theorem World.Inv.addSession {w : World} (hw : w.Inv) {s : Session} (hs : s.Inv) :
    World.Inv { w with sessions := w.sessions ++ [s] } := by
  refine ⟨fun s' hs' => ?_, hw.network, hw.initiator, hw.responder⟩
  rcases List.mem_append.mp hs' with hold | hnew
  · exact hw.sessions s' hold
  · rw [List.mem_singleton.mp hnew]
    exact hs

/-- A call of an honest session keeps the invariant. -/
theorem World.Inv.afterCall {w : World} (hw : w.Inv) {i : Nat} {s : Session}
    {call : HandshakeCall SymByte Name} (hsession : w.sessions[i]? = some s)
    (hallowed : w.Allowed call) : (w.afterCall i s call).Inv := by
  have hs := hw.sessions s (List.mem_of_getElem? hsession)
  have hset : ∀ n, Session.Inv { s with handshake := n } →
      ∀ s' ∈ w.sessions.set i { s with handshake := n }, s'.Inv := by
    intro n hn s' hs'
    rcases List.mem_or_eq_of_mem_set hs' with hold | rfl
    · exact hw.sessions s' hold
    · exact hn
  rw [World.afterCall]
  split
  case h_1 reply n hrun =>
    have hsound := hw.call_sound hs hallowed hrun
    have hsub : w.events ⊆ w.events ++ (s.event call n).toList := List.subset_append_left _ _
    refine ⟨hset n hsound.inv, ?_, ?_, ?_⟩
    · intro msg hmsg b hb
      rcases List.mem_append.mp hmsg with hold | hnew
      · exact (hw.network msg hold b hb).mono fun _ _ h => h.mono hsub
      · exact hsound.reply_public msg (by simpa using hnew) b hb
    · intro node e re j hevent
      have hpast : ∃ e', .sentMsg2 j (Symbol.publicKey e).toList e' ∈ w.events := by
        rcases List.mem_append.mp hevent with hold | hnew
        · exact hw.initiator node e re j hold
        · exact hsound.initiator node e re j (by simpa using hnew)
      obtain ⟨e', he'⟩ := hpast
      exact ⟨e', hsub he'⟩
    · intro node re e j hevent hforeign
      have hpast : ∃ e' rs, .sentMsg3 j e' (Symbol.publicKey e).toList rs ∈ w.events := by
        rcases List.mem_append.mp hevent with hold | hnew
        · exact hw.responder node re e j hold hforeign
        · exact hsound.responder node re e j (by simpa using hnew) hforeign
      obtain ⟨e', rs, he'⟩ := hpast
      exact ⟨e', rs, hsub he'⟩
  case h_2 err n hrun =>
    exact ⟨hset n (hs.refused hrun), hw.network, hw.initiator, hw.responder⟩
  case h_3 =>
    exact ⟨fun s' hs' => hw.sessions s' (List.mem_of_mem_eraseIdx hs'), hw.network,
      hw.initiator, hw.responder⟩

/-- Every step keeps the invariant. -/
theorem World.Inv.step {w w' : World} (hw : w.Inv) (hstep : w.Step w') : w'.Inv := by
  cases hstep with
  | newInitiator node => exact hw.addSession ⟨rfl, nofun, nofun⟩
  | newResponder node => exact hw.addSession ⟨rfl, nofun, nofun⟩
  | call i s call hsession hallowed => exact hw.afterCall hsession hallowed

/-- The invariant holds in every run. -/
theorem World.Reachable.inv {w : World} (h : w.Reachable) : w.Inv := by
  induction h with
  | start => exact World.inv_start
  | step _ hstep ih => exact ih.step hstep

/-- In every run, an initiator that completes with an honest node's static key was answered
by that node; a responder that completes with one has a message from that node if the
ephemeral key of message 1 was not the adversary's. -/
theorem World.completed_handshake_authenticated {w : World} (hw : w.Reachable) :
    (∀ node e re j, .sentMsg3 node e re (Symbol.publicKey (.static j)) ∈ w.events →
      ∃ e', .sentMsg2 j (Symbol.publicKey e).toList e' ∈ w.events) ∧
    (∀ node re e j, .finished node re e (Symbol.publicKey (.static j)) ∈ w.events →
      (∀ k, re ≠ Symbol.publicKey (.adversary k)) →
      ∃ e' rs, .sentMsg3 j e' (Symbol.publicKey e).toList rs ∈ w.events) := by
  refine ⟨hw.inv.initiator, fun node re e j hevent hforeign => ?_⟩
  refine hw.inv.responder node re e j hevent fun y hheld => ?_
  obtain ⟨k⟩ := hheld
  exact hforeign k

/-! ## Runs -/

/-- A call that returns a value, as a step of a run. -/
theorem World.Reachable.call {w : World} (hw : w.Reachable) (i : Nat)
    (call : HandshakeCall SymByte Name) {s : Session} {reply : Option (List SymByte)}
    {n : NoiseHandshake symbolicSuite} (hsession : w.sessions[i]? = some s)
    (hallowed : w.Allowed call)
    (hrun : NoiseHandshake.perform call s.handshake = .ok reply n) :
    World.Reachable
      { sessions := w.sessions.set i { s with handshake := n }
        fresh := w.fresh + 1
        network := w.network ++ reply.toList
        events := w.events ++ (s.event call n).toList } := by
  have hstep := Step.call i s call hsession hallowed
  rw [World.afterCall, hrun] at hstep
  exact hw.step hstep

/-- What was sent is known. -/
theorem World.known_of_mem {w : World} {msg : List SymByte} (h : msg ∈ w.network) :
    ∀ b ∈ msg, w.Known b :=
  fun _ hb => .seen ⟨msg, h, hb⟩

/-- Public keys are known. -/
theorem World.known_publicKey (w : World) (x : Name) :
    ∀ b ∈ (Symbol.publicKey x).toList, w.Known b :=
  Symbol.knows_publicKey x

/-- Any two honest nodes can complete a handshake with each other. -/
theorem World.exists_honest_run (a b : Nat) : ∃ w : World, w.Reachable ∧
    .sentMsg3 a (.msg1Ephemeral 0) (Symbol.publicKey (.msg2Ephemeral 1)).toList
      (Symbol.publicKey (.static b)) ∈ w.events ∧
    .finished b (Symbol.publicKey (.msg1Ephemeral 0)) (.msg2Ephemeral 1)
      (Symbol.publicKey (.static a)) ∈ w.events := by
  obtain ⟨c1, c2, c3, a1, a2, b1, b2, k, k', h1, ha1, h2, hb1, h3, h4, ha2, hb2⟩ :=
    NoiseHandshake.exists_undisturbed_run symbolicSuite_lawful (honest a) (honest b)
      (.msg1Ephemeral 0) (.msg2Ephemeral 1)
  rw [honest_x25519PublicKey] at ha2 hb2
  have hstart := (Reachable.start.step (.newInitiator a)).step (.newResponder b)
  have hrun1 := hstart.call 0 (.createMessage1 _) rfl rfl (Exec.map_eq_ok.mpr ⟨_, h1, rfl⟩)
  have hrun2 := hrun1.call 1 (.processMessage1CreateMessage2 _ _) rfl
    ⟨rfl, World.known_of_mem (by simp [start])⟩ (Exec.map_eq_ok.mpr ⟨_, h2, rfl⟩)
  have hrun3 := hrun2.call 0 (.processMessage2CreateMessage3 _) rfl
    (World.known_of_mem (by simp [start])) (Exec.map_eq_ok.mpr ⟨_, h3, rfl⟩)
  have hrun4 := hrun3.call 1 (.processMessage3 _) rfl
    (World.known_of_mem (by simp [start])) (Exec.map_eq_ok.mpr ⟨_, h4, rfl⟩)
  refine ⟨_, hrun4, ?_, ?_⟩
  · simp [Session.event, start, ha1, ha2, symbolicSuite_publicKey]
  · simp [Session.event, start, hb1, hb2, symbolicSuite_publicKey]

/-- The theorem applies to the run of two honest nodes, which records both events. -/
theorem World.completed_handshake_authenticated_honest : ∃ w : World, w.Reachable ∧
    .finished 1 (Symbol.publicKey (.msg1Ephemeral 0)) (.msg2Ephemeral 1)
      (Symbol.publicKey (.static 0)) ∈ w.events ∧
    (∃ e', .sentMsg2 1 (Symbol.publicKey (.msg1Ephemeral 0)).toList e' ∈ w.events) ∧
    ∃ e' rs, .sentMsg3 0 e' (Symbol.publicKey (.msg2Ephemeral 1)).toList rs ∈ w.events := by
  obtain ⟨w, hw, hsent, hfinished⟩ := World.exists_honest_run 0 1
  have hauth := World.completed_handshake_authenticated hw
  exact ⟨w, hw, hfinished, hauth.1 _ _ _ _ hsent, hauth.2 _ _ _ _ hfinished (by simp)⟩

/-! ## Impersonation -/

/-- The adversary can compute the symmetric state of a handshake. -/
structure World.Reads (w : World) (n : NoiseHandshake symbolicSuite) : Prop where
  h : ∀ b ∈ n.h.toList, w.Known b
  ck : ∀ b ∈ n.ck.toList, w.Known b

namespace World.Reads

variable {w : World} {n : NoiseHandshake symbolicSuite} {l : List SymByte}

/-- Who knows the secret knows the next chaining key. -/
theorem hkdf_fst_known (hn : w.Reads n) (hl : ∀ b ∈ l, w.Known b) :
    ∀ b ∈ (symbolicSuite.hkdf n.ck l).1.toList, w.Known b := by
  rw [hkdf_fst]
  exact Symbol.knows_authenticate (Symbol.knows_authenticate hn.ck hl) (by simp [Symbol.Knows.lit])

/-- Who knows the secret knows the cipher key. -/
theorem hkdf_snd_known (hn : w.Reads n) (hl : ∀ b ∈ l, w.Known b) :
    ∀ b ∈ (symbolicSuite.hkdf n.ck l).2.toList, w.Known b := by
  rw [hkdf_snd]
  refine Symbol.knows_authenticate (Symbol.knows_authenticate hn.ck hl) fun b hb => ?_
  rcases List.mem_append.mp hb with hfst | hlit
  · exact hn.hkdf_fst_known hl b hfst
  · rw [List.mem_singleton.mp hlit]
    exact .lit _

/-- Known data may be mixed in. -/
theorem mixed (hn : w.Reads n) (hl : ∀ b ∈ l, w.Known b) : w.Reads (n.mixed l) := by
  refine ⟨?_, hn.ck⟩
  rw [NoiseHandshake.mixed, symbolicSuite_sha256]
  refine Symbol.knows_digest fun b hb => ?_
  rcases List.mem_append.mp hb with hh | hdata
  · exact hn.h b hh
  · exact hl b hdata

/-- A known secret may be mixed in. -/
theorem keyed (hn : w.Reads n) (hl : ∀ b ∈ l, w.Known b) : w.Reads (n.keyed l) :=
  ⟨hn.h, hn.hkdf_fst_known hl⟩

/-- The start of a handshake is known. -/
theorem newResponder (w : World) (node : Nat) : w.Reads (.newResponder (honest node)) := by
  have hinit : ∀ b ∈ (symbolicSuite.sha256 symbolicSuite.protocolName).toList, w.Known b := by
    rw [symbolicSuite_sha256]
    refine Symbol.knows_digest fun b hb => ?_
    obtain ⟨c, -, rfl⟩ := List.mem_map.mp hb
    rw [symbolicSuite_lit]
    exact .lit c
  exact ⟨hinit, hinit⟩

/-- Having seen message 2 and holding the secret of message 1, the adversary can follow the
responder to the end of `es`. -/
theorem respondedEs (hn : w.Reads n) (e : Name) {y : Name} (hy : y.Held) {c1 : List SymByte}
    (hc1 : ∀ b ∈ c1, w.Known b) : w.Reads (n.respondedEs e (Symbol.publicKey y) c1) := by
  have hdh : ∀ x, ∀ b ∈ (symbolicSuite.dh x (Symbol.publicKey y)).toList, w.Known b := by
    intro x
    rw [symbolicSuite_dh]
    exact Symbol.knows_diffieHellman x hy
  have hpub : ∀ b ∈ (symbolicSuite.publicKey e).toList, w.Known b := by
    rw [symbolicSuite_publicKey]
    exact w.known_publicKey e
  exact ((((hn.mixed (w.known_publicKey y)).mixed hpub).keyed (hdh e)).mixed hc1).keyed
    (hdh _)

end World.Reads

/-- Nonces are known. -/
theorem nonce_known (w : World) (c : UInt64) : ∀ b ∈ (symbolicSuite.nonce c).toList, w.Known b := by
  intro b hb
  simp only [Suite.nonce, symbolicSuite_lit, Vector.toList_map] at hb
  obtain ⟨a, -, rfl⟩ := List.mem_map.mp hb
  exact .lit a

/-- An adversary that starts a handshake with an ephemeral key of its own makes a responder
complete with the static key of any honest node, though no node has sent a message 3. -/
theorem World.exists_impersonation (node victim k : Nat) : ∃ w : World, w.Reachable ∧
    .finished node (Symbol.publicKey (.adversary k)) (.msg2Ephemeral 0)
      (Symbol.publicKey (.static victim)) ∈ w.events ∧
    ∀ node' e re rs, .sentMsg3 node' e re rs ∉ w.events := by
  obtain ⟨c1, c2, -, -, hrun⟩ := NoiseHandshake.processMessage1CreateMessage2_of_lawful
    symbolicSuite_lawful.aead (.msg2Ephemeral 0) (Symbol.publicKey (.adversary k))
    (.newResponder (honest node))
  generalize hn : ({ ((NoiseHandshake.newResponder (honest node)).respondedEs (.msg2Ephemeral 0)
    (Symbol.publicKey (.adversary k)) c1).mixed c2 with
    state := .respSentMsg2 (Symbol.publicKey (.adversary k)) (.msg2Ephemeral 0) } :
    NoiseHandshake symbolicSuite) = n at hrun
  have hstart := Reachable.start.step (.newResponder node)
  have hallowed : World.Allowed
      { World.start with
        sessions := World.start.sessions ++ [⟨node, .newResponder (honest node)⟩] }
      (.processMessage1CreateMessage2 (.msg2Ephemeral 0)
        (Symbol.publicKey (.adversary k)).toList) :=
    ⟨rfl, fun b hb => World.known_publicKey _ _ b hb⟩
  have hrun1 := hstart.call 0 _ rfl hallowed (Exec.map_eq_ok.mpr ⟨_, hrun, rfl⟩)
  have hstate : n.state = .respSentMsg2 (Symbol.publicKey (.adversary k)) (.msg2Ephemeral 0) := by
    rw [← hn]
  have hopened : (n.keyed []).opened (n.cipherKey [])
      (Symbol.encrypt (n.cipherKey []).toList (symbolicSuite.nonce 0).toList n.h.toList
        (Symbol.publicKey (.static victim)).toList) =
      some (Symbol.publicKey (.static victim)).toList := by
    rw [NoiseHandshake.opened, symbolicSuite_decrypt]
    exact Symbol.decrypt_eq_some.mpr rfl
  have hforged : ∀ w : World, (symbolicSuite.publicKey (.msg2Ephemeral 0)).toList ++ c1 ++ c2 ∈
      w.network → w.Allowed (.processMessage3 (Symbol.encrypt (n.cipherKey []).toList
        (symbolicSuite.nonce 0).toList n.h.toList
        (Symbol.publicKey (.static victim)).toList)) := by
    intro w hmem
    have hknown := World.known_of_mem hmem
    have hes := (Reads.newResponder w node).respondedEs (.msg2Ephemeral 0) (.adversary k)
      (show ∀ b ∈ c1, w.Known b from fun b hb => hknown b (by simp [hb]))
    have hmixed := hes.mixed (l := c2) (fun b hb => hknown b (List.mem_append_right _ hb))
    have hreads : w.Reads n := hn ▸ ⟨hmixed.h, hmixed.ck⟩
    exact Symbol.knows_encrypt (hreads.hkdf_snd_known (by simp)) (nonce_known w 0) hreads.h
      (w.known_publicKey _)
  have hrun2 := hrun1.call 0 _ rfl (hforged _ (by simp [start]))
    (Exec.map_eq_ok.mpr ⟨_, NoiseHandshake.processMessage3_of_opened hstate hopened, rfl⟩)
  refine ⟨_, hrun2, ?_, ?_⟩
  · simp [Session.event, start, hstate]
  · simp [Session.event, start, hstate]

/-- A responder completes with the key of a node that has done nothing at all. -/
theorem World.responder_accepts_impersonation : ¬ ∀ w : World, w.Reachable →
    ∀ node re e j, .finished node re e (Symbol.publicKey (.static j)) ∈ w.events →
      ∃ e' rs, .sentMsg3 j e' (Symbol.publicKey e).toList rs ∈ w.events := by
  intro hclaim
  obtain ⟨w, hw, hfinished, hnone⟩ := World.exists_impersonation 1 0 0
  obtain ⟨e', rs, hsent⟩ := hclaim w hw _ _ _ _ hfinished
  exact hnone _ _ _ _ hsent

end CekyP2P.Crypto
