import CekyP2P.Crypto.NoiseCalls

/-!
# The order of the handshake calls

The last two methods look at the state only, the first one looks at it only on the
initiator's side, and the second one looks at nothing. The calls that succeed are those of
the handshake's role, in their order, exactly if the first two methods are called in turn.
-/

namespace CekyP2P.Crypto

variable {β σ : Type} {S : Suite β σ}

/-- The four methods. -/
inductive HandshakeStep
  | createMessage1
  | processMessage1CreateMessage2
  | processMessage2CreateMessage3
  | processMessage3
  deriving DecidableEq

/-- The step of the protocol that a call takes. -/
def HandshakeCall.step : HandshakeCall β σ → HandshakeStep
  | createMessage1 _ => .createMessage1
  | processMessage1CreateMessage2 _ _ => .processMessage1CreateMessage2
  | processMessage2CreateMessage3 _ => .processMessage2CreateMessage3
  | processMessage3 _ => .processMessage3

namespace NoiseHandshake

/-- The methods that a role calls, in their order. -/
def roleSteps (isInitiator : Bool) : List HandshakeStep :=
  if isInitiator then [.createMessage1, .processMessage2CreateMessage3]
  else [.processMessage1CreateMessage2, .processMessage3]

/-- A new handshake in either role. -/
def made (isInitiator : Bool) (identity : Identity S) : NoiseHandshake S :=
  if isInitiator then newInitiator identity else newResponder identity

/-- The methods of the calls that return `Ok`. -/
def succeeded : NoiseHandshake S → List (HandshakeCall β σ) → List HandshakeStep
  | _, [] => []
  | n, call :: calls =>
    (if Exec.isOk (perform call n) then [call.step] else []) ++ succeeded (n.next call) calls

/-- Message 1 is made by an initiator, and answered by a responder that has not answered. -/
def InTurn (n : NoiseHandshake S) : HandshakeCall β σ → Prop
  | .createMessage1 _ => n.isInitiator = true
  | .processMessage1CreateMessage2 _ msg1 =>
    msg1.length = 32 → n.isInitiator = false ∧ n.state = .new
  | _ => True

/-! ## How far a handshake is -/

/-- The methods that have succeeded when a role is in a state. -/
inductive Reached : Bool → InternalState β σ → List HandshakeStep → Prop
  | new (isInitiator : Bool) : Reached isInitiator .new []
  | sentMsg1 (e : σ) (p : Vector β 32) : Reached true (.initSentMsg1 e p) [.createMessage1]
  | sentMsg2 (re : Vector β 32) (e : σ) :
      Reached false (.respSentMsg2 re e) [.processMessage1CreateMessage2]
  | complete (isInitiator : Bool) (sendKey recvKey rs : Vector β 32) :
      Reached isInitiator (.complete sendKey recvKey rs) (roleSteps isInitiator)

/-- The steps that were taken are the first ones of the role. -/
theorem Reached.isPrefix {isInitiator : Bool} {state : InternalState β σ}
    {done : List HandshakeStep} (h : Reached isInitiator state done) :
    done <+: roleSteps isInitiator := by
  cases h with
  | new => exact List.nil_prefix
  | sentMsg1 e p => decide
  | sentMsg2 re e => decide
  | complete => exact List.prefix_refl _

/-- Every way in which a call can end, as far as role and state go. -/
inductive Turn (n : NoiseHandshake S) :
    HandshakeCall β σ → Outcome S (Option (List β)) → Prop
  | refused {call : HandshakeCall β σ} {stop : Stop CryptoError} {n' : NoiseHandshake S}
      (hstate : n'.state = n.state) (hturn : n.InTurn call) : Turn n call (.error stop n')
  | makes {e : σ} {p : Vector β 32} {reply : Option (List β)} {n' : NoiseHandshake S}
      (hguard : n.isInitiator = true → n.state = .new)
      (hstate : n'.state = .initSentMsg1 e p) : Turn n (.createMessage1 e) (.ok reply n')
  | answers {e : σ} {msg1 : List β} {re : Vector β 32} {reply : Option (List β)}
      {n' : NoiseHandshake S} (hlen : msg1.length = 32) (hstate : n'.state = .respSentMsg2 re e) :
      Turn n (.processMessage1CreateMessage2 e msg1) (.ok reply n')
  | completes {e : σ} {p : Vector β 32} {msg2 : List β} {k k' rs : Vector β 32}
      {reply : Option (List β)} {n' : NoiseHandshake S}
      (hbefore : n.state = .initSentMsg1 e p)
      (hstate : n'.state = .complete k k' rs) :
      Turn n (.processMessage2CreateMessage3 msg2) (.ok reply n')
  | finishes {re : Vector β 32} {e : σ} {msg3 : List β} {k k' rs : Vector β 32}
      {reply : Option (List β)} {n' : NoiseHandshake S}
      (hbefore : n.state = .respSentMsg2 re e)
      (hstate : n'.state = .complete k k' rs) : Turn n (.processMessage3 msg3) (.ok reply n')

/-- A call takes the next step of its role, or is refused, or is out of turn. -/
theorem perform_turn (hS : S.aead.Lawful) (n : NoiseHandshake S) (call : HandshakeCall β σ) :
    Turn n call (perform call n) := by
  cases call with
  | createMessage1 e =>
    rw [perform, Exec.map_apply]
    simp only [createMessage1, Exec.bind_apply, Exec.get_apply]
    cases hinit : n.isInitiator with
    | false => exact .makes (fun h => absurd (hinit.symm.trans h) Bool.false_ne_true) rfl
    | true =>
      cases hstate : n.state with
      | new => exact .makes (fun _ => hstate) rfl
      | initSentMsg1 e' p | respSentMsg2 re e' | complete sendKey recvKey rs =>
        exact .refused rfl hinit
  | processMessage1CreateMessage2 e msg1 =>
    rw [perform, Exec.map_apply]
    cases hresult : processMessage1CreateMessage2 e msg1 n with
    | ok reply n' =>
      obtain ⟨re, c1, c2, rfl, -, -, -, rfl⟩ := processMessage1CreateMessage2_eq_ok hresult
      exact .answers re.length_toList rfl
    | error stop n' =>
      obtain ⟨rfl, hlen⟩ := processMessage1CreateMessage2_eq_error hS hresult
      exact .refused rfl fun h32 => absurd h32 hlen
  | processMessage2CreateMessage3 msg2 =>
    have hout := processMessage2CreateMessage3_outcome hS msg2 n
    rw [perform, Exec.map_apply]
    generalize processMessage2CreateMessage3 msg2 n = result at hout
    cases hout with
    | answered e p re c1 c2 rs payload c3 hstate => exact .completes hstate rfl
    | wrongState | tooShort | staticRejected | payloadRejected | staticFailed =>
      exact .refused rfl trivial
  | processMessage3 msg3 =>
    have hout := processMessage3_outcome msg3 n
    rw [perform, Exec.map_apply]
    generalize processMessage3 msg3 n = result at hout
    cases hout with
    | finished re e rs hstate => exact .finishes hstate rfl
    | wrongState | staticRejected | wrongLength => exact .refused rfl trivial

variable {n : NoiseHandshake S} {call : HandshakeCall β σ} {done : List HandshakeStep}

/-- A call that does not succeed keeps the state, and is in turn. -/
theorem refused_inTurn (hS : S.aead.Lawful) (hok : Exec.isOk (perform call n) = false) :
    (n.next call).state = n.state ∧ n.InTurn call := by
  have hturn := perform_turn hS n call
  rw [next]
  generalize perform call n = result at hturn hok
  cases hturn with
  | refused hstate hturn => exact ⟨hstate, hturn⟩
  | makes | answers | completes | finishes => cases hok

/-- A call that succeeds is the next one of the role exactly if it is in turn. -/
theorem accepted_inTurn (hS : S.aead.Lawful) (hdone : Reached n.isInitiator n.state done)
    (hok : Exec.isOk (perform call n) = true) :
    (done ++ [call.step] <+: roleSteps n.isInitiator ↔ n.InTurn call) ∧
      (n.InTurn call → Reached n.isInitiator (n.next call).state (done ++ [call.step])) := by
  have hturn := perform_turn hS n call
  rw [next]
  generalize perform call n = result at hturn hok
  obtain ⟨identity, isInitiator, h, ck, state⟩ := n
  dsimp only at hdone
  cases hturn with
  | refused => cases hok
  | makes hguard hstate =>
    dsimp only [HandshakeCall.step] at hguard ⊢
    cases isInitiator with
    | true =>
      obtain rfl := hguard rfl
      cases hdone
      exact ⟨iff_of_true (by decide) rfl, fun _ => hstate ▸ .sentMsg1 _ _⟩
    | false =>
      refine ⟨iff_of_false (fun hfirst => ?_) Bool.false_ne_true, fun h => by cases h⟩
      have hmem := hfirst.subset (List.mem_append_right done (List.mem_singleton_self _))
      exact absurd hmem (by decide)
  | answers hlen hstate =>
    dsimp only [HandshakeCall.step]
    cases isInitiator with
    | true =>
      refine ⟨iff_of_false (fun hfirst => ?_) fun h => ?_, fun h => ?_⟩
      · have hmem := hfirst.subset (List.mem_append_right done (List.mem_singleton_self _))
        exact absurd hmem (by decide)
      · exact absurd (h hlen).1.symm Bool.false_ne_true
      · exact absurd (h hlen).1.symm Bool.false_ne_true
    | false =>
      cases hdone with
      | new => exact ⟨iff_of_true (by decide) fun _ => ⟨rfl, rfl⟩, fun _ => hstate ▸ .sentMsg2 _ _⟩
      | sentMsg2 re e | complete _ k k' rs =>
        refine ⟨iff_of_false (by decide) fun h => ?_, fun h => ?_⟩
        · cases (h hlen).2
        · cases (h hlen).2
  | completes hbefore hstate =>
    cases hbefore
    cases hdone
    dsimp only [HandshakeCall.step]
    exact ⟨iff_of_true (by decide) trivial, fun _ => hstate ▸ .complete true _ _ _⟩
  | finishes hbefore hstate =>
    cases hbefore
    cases hdone
    dsimp only [HandshakeCall.step]
    exact ⟨iff_of_true (by decide) trivial, fun _ => hstate ▸ .complete false _ _ _⟩

/-! ## Runs -/

/-- The calls that succeed are the steps of the role in order, just if every call is in turn. -/
theorem succeeded_isPrefix_iff (hS : S.aead.Lawful)
    (hdone : Reached n.isInitiator n.state done) (calls : List (HandshakeCall β σ)) :
    done ++ succeeded n calls <+: roleSteps n.isInitiator ↔ Along InTurn next n calls := by
  induction calls generalizing n done with
  | nil =>
    rw [succeeded, List.append_nil]
    exact iff_of_true hdone.isPrefix trivial
  | cons call calls ih =>
    have hrole : (n.next call).isInitiator = n.isInitiator := (owner_next hS n call).2
    rw [succeeded, Along]
    cases hok : Exec.isOk (perform call n) with
    | false =>
      obtain ⟨hstate, hturn⟩ := refused_inTurn hS hok
      have hkept : Reached (n.next call).isInitiator (n.next call).state done := by
        rw [hrole, hstate]
        exact hdone
      have hrest := ih hkept
      rw [hrole] at hrest
      simpa [hturn] using hrest
    | true =>
      obtain ⟨hfirst, hnext⟩ := accepted_inTurn hS hdone hok
      rw [if_pos rfl, ← List.append_assoc]
      constructor
      · intro hall
        have hturn := hfirst.mp ((List.prefix_append _ _).trans hall)
        refine ⟨hturn, (ih (hrole ▸ hnext hturn)).mp ?_⟩
        rw [hrole]
        exact hall
      · rintro ⟨hturn, hrest⟩
        have hall := (ih (hrole ▸ hnext hturn)).mpr hrest
        rw [hrole] at hall
        exact hall

/-- A complete handshake accepts no call that is in turn. -/
theorem complete_next (hS : S.aead.Lawful) {k k' rs : Vector β 32}
    (hstate : n.state = .complete k k' rs) (hturn : n.InTurn call) :
    (n.next call).state = .complete k k' rs := by
  cases hok : Exec.isOk (perform call n) with
  | false => exact (refused_inTurn hS hok).1.trans hstate
  | true =>
    have hdone : Reached n.isInitiator n.state (roleSteps n.isInitiator) :=
      hstate ▸ .complete _ k k' rs
    have hlength := ((accepted_inTurn hS hdone hok).1.mpr hturn).length_le
    rw [List.length_append, List.length_singleton] at hlength
    omega

/-- A complete handshake keeps its keys while calls are in turn. -/
theorem complete_foldl (hS : S.aead.Lawful) {k k' rs : Vector β 32}
    (hstate : n.state = .complete k k' rs) {calls : List (HandshakeCall β σ)}
    (hcalls : Along InTurn next n calls) :
    (calls.foldl next n).state = .complete k k' rs :=
  Along.invariant (I := fun n => n.state = .complete k k' rs)
    (fun _ _ hstate hturn => complete_next hS hstate hturn) hcalls hstate

/-- For every role and every list of calls: the calls that succeed are the first ones of the
role, and a complete handshake keeps its keys, just if every call is in turn. -/
theorem calls_follow_role_iff (hS : S.aead.Lawful) (isInitiator : Bool) (identity : Identity S)
    (calls : List (HandshakeCall β σ)) :
    (succeeded (made isInitiator identity) calls <+: roleSteps isInitiator ∧
      ∀ first more, first ++ more <+: calls → ∀ k k' rs,
        (first.foldl next (made isInitiator identity)).state = .complete k k' rs →
          ((first ++ more).foldl next (made isInitiator identity)).state = .complete k k' rs) ↔
      Along InTurn next (made isInitiator identity) calls := by
  have hrole : (made isInitiator identity).isInitiator = isInitiator := by
    cases isInitiator <;> rfl
  have hnew : (made isInitiator identity).state = .new := by
    cases isInitiator <;> rfl
  have hdone : Reached (made isInitiator identity).isInitiator
      (made isInitiator identity).state [] := hnew ▸ .new _
  have hfirst := succeeded_isPrefix_iff hS hdone calls
  rw [List.nil_append, hrole] at hfirst
  rw [hfirst]
  refine ⟨And.left, fun hturns => ⟨hturns, ?_⟩⟩
  intro first more htaken k k' rs hstate
  obtain ⟨rest, rfl⟩ := htaken
  have hmore := (along_append.mp (along_append.mp hturns).1).2
  rw [List.foldl_append]
  exact complete_foldl hS hstate hmore

/-- An initiator that is asked to answer a message 1 of the wrong length, and then starts. -/
theorem calls_follow_role_xor :
    let calls := [.processMessage1CreateMessage2 (Vector.replicate 32 4) [], .processMessage3 [],
      .createMessage1 (Vector.replicate 32 3)]
    succeeded (made true (xorIdentity (Vector.replicate 32 2))) calls <+: roleSteps true := by
  intro calls
  have hturns : Along InTurn next (made true (xorIdentity (Vector.replicate 32 2))) calls :=
    ⟨nofun, trivial, rfl, trivial⟩
  exact ((calls_follow_role_iff xorSuite_lawful.aead true _ calls).mpr hturns).1

/-- A responder completes with a peer's two messages, then makes a message 1 of its own, and
its keys are gone. -/
theorem complete_responder_starts_over :
    let responder := made false (xorIdentity (Vector.replicate 32 2))
    let calls := [.processMessage1CreateMessage2 (Vector.replicate 32 4) (List.replicate 32 3),
      .processMessage3 (List.replicate 32 1 ++ List.replicate 16 0),
      .createMessage1 (Vector.replicate 32 5)]
    succeeded responder calls =
        [.processMessage1CreateMessage2, .processMessage3, .createMessage1] ∧
      (intoSessionKeys ((calls.take 2).foldl next responder)).isOk = true ∧
      (intoSessionKeys (calls.foldl next responder)).isOk = false := by
  decide +kernel

end NoiseHandshake

end CekyP2P.Crypto
