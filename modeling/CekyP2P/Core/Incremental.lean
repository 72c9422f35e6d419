import Mathlib.Data.List.Basic
import Mathlib.Data.List.Induction

/-!
# Incremental decoders

A decoder is called on the bytes that have arrived and not been consumed yet. It may
ask for more, in a new state; produce an item and consume bytes; or fail. If more bytes
never change an answer, and asking for more loses nothing, then what is decoded from a
stream does not depend on how the stream is cut into pieces.
-/

namespace CekyP2P.Incremental

/-- The answer of a decoder. -/
inductive Outcome (σ β α ε : Type)
  /-- Nothing is consumed. -/
  | more (state : σ)
  | item (value : α) (state : σ) (rest : List β)
  | error (e : ε)

/-- The same answer, with bytes behind what is left over. -/
def Outcome.extend {σ β α ε : Type} (extra : List β) : Outcome σ β α ε → Outcome σ β α ε
  | .more s => .more s
  | .item a s rest => .item a s (rest ++ extra)
  | .error e => .error e

/-- Decoders whose answers are stable under more input. -/
structure Decoder (σ β α ε : Type) where
  decode : σ → List β → Outcome σ β α ε
  init : σ
  init_more : decode init [] = .more init
  progress : ∀ {s buf a s' rest}, decode s buf = .item a s' rest → rest.length < buf.length
  item_append : ∀ {s buf a s' rest}, decode s buf = .item a s' rest →
    ∀ extra, decode s (buf ++ extra) = .item a s' (rest ++ extra)
  error_append : ∀ {s buf e}, decode s buf = .error e → ∀ extra, decode s (buf ++ extra) = .error e
  more_append : ∀ {s buf s'}, decode s buf = .more s' →
    ∀ extra, decode s (buf ++ extra) = decode s' (buf ++ extra)

/-- Where decoding stands: waiting for input with some bytes unread, or failed. -/
inductive Status (σ β ε : Type)
  | waiting (state : σ) (unread : List β)
  | failed (e : ε)

/-- What has been decoded, how many bytes it took, and where decoding stands. -/
structure Progress (σ β α ε : Type) where
  items : List α
  consumed : Nat
  status : Status σ β ε

variable {σ β α ε : Type}

/-- An item before everything else. -/
def Progress.after (a : α) (n : Nat) (p : Progress σ β α ε) : Progress σ β α ε :=
  { p with items := a :: p.items, consumed := n + p.consumed }

namespace Decoder

variable (D : Decoder σ β α ε)

/-- Call the decoder until it asks for more or fails. -/
def drain (s : σ) (buf : List β) : Progress σ β α ε :=
  match _h : D.decode s buf with
  | .more s' => ⟨[], 0, .waiting s' buf⟩
  | .error e => ⟨[], 0, .failed e⟩
  | .item a s' rest => (drain s' rest).after a (buf.length - rest.length)
termination_by buf.length
decreasing_by exact D.progress _h

/-- One more piece arrives; after a failure nothing is read. -/
def feed (p : Progress σ β α ε) (piece : List β) : Progress σ β α ε :=
  match p.status with
  | .failed _ => p
  | .waiting s unread =>
    let next := D.drain s (unread ++ piece)
    ⟨p.items ++ next.items, p.consumed + next.consumed, next.status⟩

/-- A fresh decoder is fed the pieces in order. -/
def feedAll (pieces : List (List β)) : Progress σ β α ε :=
  pieces.foldl D.feed ⟨[], 0, .waiting D.init []⟩

variable {D}

/-- A decoder that needs more bytes waits. -/
theorem drain_of_more {s s' : σ} {buf : List β} (h : D.decode s buf = .more s') :
    D.drain s buf = ⟨[], 0, .waiting s' buf⟩ := by
  rw [drain]
  split <;> simp_all

/-- A decoder that fails stops. -/
theorem drain_of_error {s : σ} {buf : List β} {e : ε} (h : D.decode s buf = .error e) :
    D.drain s buf = ⟨[], 0, .failed e⟩ := by
  rw [drain]
  split <;> simp_all

/-- A decoder that has found an item goes on behind it. -/
theorem drain_of_item {s s' : σ} {buf rest : List β} {a : α}
    (h : D.decode s buf = .item a s' rest) :
    D.drain s buf = (D.drain s' rest).after a (buf.length - rest.length) := by
  rw [drain]
  split <;> simp_all

/-- Asking for more loses nothing. -/
theorem drain_append_of_more {s s' : σ} {buf : List β} (h : D.decode s buf = .more s')
    (extra : List β) : D.drain s (buf ++ extra) = D.drain s' (buf ++ extra) := by
  rw [drain, drain, D.more_append h extra]

/-- The first item of a drain, and what the drain of the rest gives. -/
theorem drain_append_of_item {s s' : σ} {buf rest : List β} {a : α}
    (h : D.decode s buf = .item a s' rest) {extra : List β} {items : List α} {n : Nat}
    {status : Status σ β ε} (hdrain : D.drain s (buf ++ extra) = ⟨items, n, status⟩) :
    ∃ items' n', items = a :: items' ∧ D.drain s' (rest ++ extra) = ⟨items', n', status⟩ := by
  rw [drain_of_item (D.item_append h extra)] at hdrain
  cases hdrain
  exact ⟨_, _, rfl, rfl⟩

/-- What was found before a piece does not change what the piece gives. -/
theorem feed_after (a : α) (n : Nat) (p : Progress σ β α ε) (piece : List β) :
    (D.feed p piece).after a n = D.feed (p.after a n) piece := by
  obtain ⟨items, consumed, status⟩ := p
  cases status with
  | failed e => rfl
  | waiting s unread => simp [feed, Progress.after, Nat.add_assoc]

/-- Draining a longer buffer is draining the shorter one and going on with the rest. By induction on
the bytes: each item leaves a shorter buffer. -/
theorem drain_append (s : σ) (buf extra : List β) :
    D.drain s (buf ++ extra) = D.feed (D.drain s buf) extra := by
  induction hn : buf.length using Nat.strongRecOn generalizing s buf with
  | ind n ih =>
    cases hdecode : D.decode s buf with
    | more s' =>
      rw [drain_of_more hdecode, drain_append_of_more hdecode, feed]
      simp
    | error e =>
      rw [drain_of_error hdecode, drain_of_error (D.error_append hdecode extra)]
      rfl
    | item a s' rest =>
      have hlt : rest.length < n := hn ▸ D.progress hdecode
      rw [drain_of_item hdecode, drain_of_item (D.item_append hdecode extra),
        ih rest.length hlt s' rest rfl, feed_after, List.length_append, List.length_append,
        Nat.add_sub_add_right]

/-- What is decoded depends only on the bytes, not on the pieces. -/
theorem feedAll_eq_drain (pieces : List (List β)) :
    D.feedAll pieces = D.drain D.init pieces.flatten := by
  induction pieces using List.reverseRecOn with
  | nil => exact (drain_of_more D.init_more).symm
  | append_singleton pieces piece ih =>
    rw [feedAll, List.foldl_concat, ← feedAll, ih, ← drain_append]
    simp

end Decoder

end CekyP2P.Incremental
