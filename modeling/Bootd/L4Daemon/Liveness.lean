import Bootd.Core.Fair
import Bootd.L4Daemon.LossyNetwork

/-!
# A transfer comes to its end

An infinite run of `lossyNet`: messages get lost, repeated and reordered, other packets
come in between.

Fairness, of the client and the network (`Net.Fair`), while the client waits for a block:

* it acknowledges the block it has last, again and again;
* one of these acknowledgments gets through at some time, and the read for the answer works;
* an answer gets through at some time.

Hypothesis on the daemon: the session goes on. `host_session_add` may end it for the
request of somebody else, if the client was silent for too long.

* `waiting_asks`, `asks_answered`, `answered_takes`: one round.
* `lossy_arrives`: the client has the file at some time.
* `fair_run`: from every state there is a fair run.
-/
namespace Bootd

open Bootd.Core Bootd.Core.LTS Bootd.Core.Blocks

/-- The client has `j` blocks and waits for the next one. -/
def Net.Waits (j : Nat) (x : Net) : Prop := ¬x.Done ∧ x.got.length = j

/-- The file is complete, or one more block is there. -/
def Net.Beyond (j : Nat) (x : Net) : Prop := x.Done ∨ j < x.got.length

/-- `pkt` acknowledges block `j`. -/
def Pkt.AcksBlock (pkt : Pkt) (j : Nat) : Prop := pkt.tftpOp = .ack ∧ pkt.tftpN = j % 65536

/-- There is an answer that the client would take. -/
def Net.Answered (x : Net) : Prop := ∃ d, ((x.got.length + 1) % 65536, d) ∈ x.down

structure Net.Fair (c : Conf) (frm : SockAddr) (h : HostId) (req : Pkt) (content : List UInt8)
    (run : Nat → Net) : Prop where
  acks : ∀ j, WeakFair run (Net.Waits j) fun x y =>
    ∃ pkt, pkt.AcksBlock j ∧ (lossyNet c frm h req content).step x (.send pkt) y
  arrives : ∀ j, WeakFair run (fun x => x.Waits j ∧ ∃ pkt ∈ x.up, pkt.AcksBlock j) fun x y =>
    ∃ pkt os l loc, pkt.AcksBlock j ∧ ReadsAll os content (pkt.tftpN * tftpBlock) ∧
      (lossyNet c frm h req content).step x (.handle (.udp os l frm loc pkt)) y
  taken : WeakFair run (fun x => ¬x.Done ∧ x.Answered) fun x y =>
    ∃ d, (lossyNet c frm h req content).step x (.take d) y

section
variable {c : Conf} {frm : SockAddr} {h : HostId} {req pkt : Pkt} {content : List UInt8} {run : Nat → Net}
  {x y : Net} {j : Nat} {l : NetLabel}

/-- What was sent stays in the network, and the client keeps what it has. -/
theorem net_grows (hs : (lossyNet c frm h req content).step x l y) :
    (∀ p ∈ x.up, p ∈ y.up) ∧ (∀ m ∈ x.down, m ∈ y.down) ∧
      (y.got = x.got ∨ x.got.length < y.got.length) := by
  cases hs with
  | send pkt _ => exact ⟨fun p hp => List.mem_append_left _ hp, fun m hm => hm, .inl rfl⟩
  | handle e σ' _ _ => exact ⟨fun p hp => hp, fun m hm => List.mem_append_left _ hm, .inl rfl⟩
  | take d _ _ =>
    refine ⟨fun p hp => hp, fun m hm => hm, .inr ?_⟩
    show _ < (x.got ++ [d]).length
    rw [List.length_append, List.length_singleton]
    exact Nat.lt_succ_self _

/-- In the next state the client still waits, or it does no longer. -/
theorem waits_next (ht : (lossyNet c frm h req content).Trace run) (n : Nat) (hw : (run n).Waits j) :
    (run (n + 1)).Beyond j ∨ ((run (n + 1)).Waits j ∧ (∀ p ∈ (run n).up, p ∈ (run (n + 1)).up) ∧
      ∀ m ∈ (run n).down, m ∈ (run (n + 1)).down) := by
  rcases ht.next n with heq | ⟨l, hs⟩
  · rw [heq]
    exact .inr ⟨hw, fun _ hp => hp, fun _ hm => hm⟩
  · obtain ⟨hup, hdown, hgot | hgot⟩ := net_grows hs
    · refine .inr ⟨⟨fun hd => hw.1 ((net_done_congr hgot).mp hd), ?_⟩, hup, hdown⟩
      rw [hgot]
      exact hw.2
    · rw [hw.2] at hgot
      exact .inl (.inr hgot)

theorem net_send (hs : (lossyNet c frm h req content).step x (.send pkt) y) : pkt ∈ y.up := by
  cases hs
  exact List.mem_append_right _ List.mem_cons_self

theorem net_handle {e : Ev} (hs : (lossyNet c frm h req content).step x (.handle e) y) :
    (daemon c).step x.σ e y.σ ∧ y.down = x.down ++ y.σ.w.dataTo frm ∧ y.got = x.got := by
  cases hs with
  | handle _ σ' hs _ => exact ⟨hs, rfl, rfl⟩

theorem net_take {d : List UInt8} (hs : (lossyNet c frm h req content).step x (.take d) y) :
    x.got.length < y.got.length := by
  cases hs
  show _ < (x.got ++ [d]).length
  rw [List.length_append, List.length_singleton]
  exact Nat.lt_succ_self _

/-! ## One round -/

/-- The client asks for its block. -/
theorem waiting_asks (ht : (lossyNet c frm h req content).Trace run) (hfair : Net.Fair c frm h req content run)
    (j : Nat) : LeadsTo run (Net.Waits j) fun x => x.Beyond j ∨ x.Waits j ∧ ∃ pkt ∈ x.up, pkt.AcksBlock j := by
  refine .of_fair (hfair.acks j) (fun n hw => hw) (fun n hw => ?_) fun n hw ⟨pkt, hpkt, hs⟩ => ?_
  · rcases waits_next ht n hw with hb | ⟨hw', -, -⟩
    · exact .inl (.inl hb)
    · exact .inr hw'
  · rcases waits_next ht n hw with hb | ⟨hw', -, -⟩
    · exact .inl hb
    · exact .inr ⟨hw', pkt, net_send hs, hpkt⟩

/-- The daemon answers. -/
theorem asks_answered (hfrm : frm ≠ .any) (ht : (lossyNet c frm h req content).Trace run)
    (hgo : ∀ n, (run n).Going frm h) (hfair : Net.Fair c frm h req content run) (j : Nat) :
    LeadsTo run (fun x => x.Waits j ∧ ∃ pkt ∈ x.up, pkt.AcksBlock j)
      fun x => x.Beyond j ∨ x.Waits j ∧ x.Answered := by
  refine .of_fair (hfair.arrives j) (fun n hw => hw) (fun n ⟨hw, pkt, hin, hpkt⟩ => ?_) fun n ⟨hw, _⟩ hact => ?_
  · rcases waits_next ht n hw with hb | ⟨hw', hup, -⟩
    · exact .inl (.inl hb)
    · exact .inr ⟨hw', pkt, hup pkt hin, hpkt⟩
  · obtain ⟨pkt, os, l, loc, hpkt, hall, hs⟩ := hact
    rcases waits_next ht n hw with hb | ⟨hw', -, -⟩
    · exact .inl hb
    · obtain ⟨hstep, hdown, hgot⟩ := net_handle hs
      obtain ⟨w', hrun, hdata, -⟩ := ack_dataTo hfrm (ht.reachable n) (hgo n) l loc hpkt.1 hall
      have hw'' : (run (n + 1)).σ.w = w' := by
        have heq := hstep.2.1.symm.trans hrun
        injection heq
      refine .inr ⟨hw', block tftpBlock pkt.tftpN content, ?_⟩
      rw [hdown, hw'', hdata, hgot, hw.2, hpkt.2, Nat.mod_add_mod]
      exact List.mem_append_right _ List.mem_cons_self

/-- The answer arrives. -/
theorem answered_takes (ht : (lossyNet c frm h req content).Trace run)
    (hfair : Net.Fair c frm h req content run) (j : Nat) :
    LeadsTo run (fun x => x.Waits j ∧ x.Answered) (Net.Beyond j) := by
  refine .of_fair hfair.taken (fun n hw => ⟨hw.1.1, hw.2⟩) (fun n ⟨hw, d, hd⟩ => ?_) fun n ⟨hw, _⟩ ⟨d, hs⟩ => ?_
  · rcases waits_next ht n hw with hb | ⟨hw', -, hdown⟩
    · exact .inl hb
    · refine .inr ⟨hw', d, ?_⟩
      rw [hw'.2, ← hw.2]
      exact hdown _ hd
  · have hlt := net_take hs
    rw [hw.2] at hlt
    exact .inr hlt

/-- The next block is there at some time. -/
theorem waits_beyond (hfrm : frm ≠ .any) (ht : (lossyNet c frm h req content).Trace run)
    (hgo : ∀ n, (run n).Going frm h) (hfair : Net.Fair c frm h req content run) (j : Nat) :
    LeadsTo run (Net.Waits j) (Net.Beyond j) := by
  have hasks : LeadsTo run (fun x => x.Waits j ∧ ∃ pkt ∈ x.up, pkt.AcksBlock j) (Net.Beyond j) :=
    (asks_answered hfrm ht hgo hfair j).trans (answered_takes ht hfair j).orElse
  exact (waiting_asks ht hfair j).trans hasks.orElse

end

/-- **A fair run comes to its end**: if the network does not lose everything for ever,
the client repeats itself and the session goes on, the client has the file at some time.
-/
theorem lossy_arrives (c : Conf) (frm : SockAddr) (h : HostId) (req : Pkt) (content : List UInt8)
    (hlen : content.length < 65536 * tftpBlock) (hfrm : frm ≠ .any) (run : Nat → Net)
    (ht : (lossyNet c frm h req content).Trace run) (hgo : ∀ n, (run n).Going frm h)
    (hfair : Net.Fair c frm h req content run) : ∃ n, (run n).Done ∧ (run n).got.flatten = content := by
  have hbound : ∀ n, ¬(run n).Done → (run n).got.length ≤ content.length / tftpBlock + 1 :=
    fun n _ => (lossy_arrived hlen (ht.reachable n)).bound
  have hends : LeadsTo run (fun x => ¬x.Done) Net.Done := by
    refine .climb (m := fun x => x.got.length) hbound fun j n hw => ?_
    obtain ⟨k, hk, hb⟩ := waits_beyond hfrm ht hgo hfair j n hw
    by_cases hdone : (run k).Done
    · exact ⟨k, hk, .inl hdone⟩
    · exact ⟨k, hk, .inr ⟨hdone, hb.resolve_left hdone⟩⟩
  obtain ⟨n, hdone⟩ : ∃ n, (run n).Done := by
    by_cases h0 : (run 0).Done
    · exact ⟨0, h0⟩
    · obtain ⟨n, -, hdone⟩ := hends 0 h0
      exact ⟨n, hdone⟩
  exact ⟨n, hdone, (lossy_arrived hlen (ht.reachable n)).whole hdone⟩

/-! ## A fair run -/

/-- The turns of a client and a network that do what they have to: the last block is acknowledged
twice, the daemon answers both, and the client takes one of the answers. The other is lost. -/
def Net.turn (c : Conf) (frm : SockAddr) (content : List UInt8) (l : Listener) (n : Nat) (x : Net) : Net :=
  match n % 5 with
  | 0 | 2 => x.ask
  | 1 | 3 => x.answer c frm content l
  | _ => x.accept content

def Net.turns (c : Conf) (frm : SockAddr) (content : List UInt8) (l : Listener) (x : Net) : Nat → Net
  | 0 => x
  | n + 1 => (x.turns c frm content l n).turn c frm content l n

/-- Before turn `n`: what was asked, and what was answered. -/
structure Net.Turning (c : Conf) (frm : SockAddr) (h : HostId) (req : Pkt) (content : List UInt8) (l : Listener)
    (n : Nat) (x : Net) : Prop where
  reachable : (lossyNet c frm h req content).Reachable x
  going : x.Going frm h
  listener : l ∈ x.σ.w.listeners
  asked : n % 5 ≠ 0 → ackPkt x.got.length ∈ x.up
  answered : 2 ≤ n % 5 → ((x.got.length + 1) % 65536, x.wanted content) ∈ x.down

section
variable {c : Conf} {frm : SockAddr} {h : HostId} {req : Pkt} {content : List UInt8} {l : Listener}
  {x : Net} {n : Nat}

theorem turn_ask (hn : n % 5 = 0 ∨ n % 5 = 2) : x.turn c frm content l n = x.ask := by
  rcases hn with hn | hn <;> simp only [Net.turn, hn]

theorem turn_answer (hn : n % 5 = 1 ∨ n % 5 = 3) : x.turn c frm content l n = x.answer c frm content l := by
  rcases hn with hn | hn <;> simp only [Net.turn, hn]

theorem turn_accept (hn : n % 5 = 4) : x.turn c frm content l n = x.accept content := by
  simp only [Net.turn, hn]

/-- A turn, by its kind. -/
theorem Net.Turning.next (hfrm : frm ≠ .any) (hserves : l.Serves frm) (hx : x.Turning c frm h req content l n) :
    (x.turn c frm content l n).Turning c frm h req content l (n + 1) ∧
      (x.turn c frm content l n = x ∨
        ∃ k, (lossyNet c frm h req content).step x k (x.turn c frm content l n)) := by
  obtain hn | hn | hn : (n % 5 = 0 ∨ n % 5 = 2) ∨ (n % 5 = 1 ∨ n % 5 = 3) ∨ n % 5 = 4 := by omega
  · rw [turn_ask hn]
    refine ⟨⟨hx.reachable.step ask_step, ⟨hx.going.begun, hx.going.session⟩, hx.listener,
      fun _ => ?_, fun h2 => ?_⟩,
      .inr ⟨_, ask_step⟩⟩
    · exact List.mem_append_right _ List.mem_cons_self
    · exact hx.answered (by omega)
  · rw [turn_answer hn]
    obtain ⟨hstep, hgo, hl, hin⟩ :=
      answer_step hfrm hx.reachable hx.going hx.listener hserves (hx.asked (by omega))
    have hasked : ackPkt (x.answer c frm content l).got.length ∈ (x.answer c frm content l).up := by
      rw [answer_got, answer_up]
      exact hx.asked (by omega)
    exact ⟨⟨hx.reachable.step hstep, hgo, hl, fun _ => hasked, fun _ => hin⟩, .inr ⟨_, hstep⟩⟩
  · rw [turn_accept hn]
    by_cases hdone : x.Done
    · have hsame : x.accept content = x := if_pos hdone
      rw [hsame]
      exact ⟨⟨hx.reachable, hx.going, hx.listener, fun h0 => by omega, fun h2 => by omega⟩, .inl rfl⟩
    · have hstep : (lossyNet c frm h req content).step x (.take (x.wanted content)) (x.accept content) :=
        accept_step hdone (hx.answered (by omega))
      have hmore : x.accept content = { x with got := x.got ++ [x.wanted content] } := if_neg hdone
      refine ⟨⟨hx.reachable.step hstep, ?_, ?_, fun h0 => by omega, fun h2 => by omega⟩, .inr ⟨_, hstep⟩⟩
      · rw [hmore]
        exact ⟨List.append_ne_nil_of_right_ne_nil _ (List.cons_ne_nil _ _), hx.going.session⟩
      · rw [hmore]
        exact hx.listener

theorem turns_turning (hfrm : frm ≠ .any) (hserves : l.Serves frm)
    (hx : x.Turning c frm h req content l 0) : ∀ n, (x.turns c frm content l n).Turning c frm h req content l n
  | 0 => hx
  | n + 1 => ((turns_turning hfrm hserves hx n).next hfrm hserves).1

/-- The actions are taken where they are possible, at the latest after five turns. -/
theorem turns_fair (hfrm : frm ≠ .any) (hserves : l.Serves frm) (hx : x.Turning c frm h req content l 0) :
    Net.Fair c frm h req content (x.turns c frm content l) where
  acks j := .of_often fun n => by
    refine ⟨5 * n, by omega, fun hw => ⟨ackPkt j, ⟨ackPkt_op j, ackPkt_no j⟩, ?_⟩⟩
    show (lossyNet c frm h req content).step _ _ (Net.turn c frm content l (5 * n) _)
    rw [turn_ask (by omega), ← hw.2]
    exact ask_step
  arrives j := .of_often fun n => by
    refine ⟨5 * n + 1, by omega, fun hw => ?_⟩
    have hn := turns_turning hfrm hserves hx (5 * n + 1)
    refine ⟨ackPkt j, filled content, l, frm, ⟨ackPkt_op j, ackPkt_no j⟩, filled_readsAll content _, ?_⟩
    show (lossyNet c frm h req content).step _ _ (Net.turn c frm content l (5 * n + 1) _)
    rw [turn_answer (by omega), ← hw.1.2]
    exact (answer_step hfrm hn.reachable hn.going hn.listener hserves (hn.asked (by omega))).1
  taken := .of_often fun n => by
    refine ⟨5 * n + 4, by omega, fun hw => ?_⟩
    have hn := turns_turning hfrm hserves hx (5 * n + 4)
    refine ⟨(x.turns c frm content l (5 * n + 4)).wanted content, ?_⟩
    show (lossyNet c frm h req content).step _ _ (Net.turn c frm content l (5 * n + 4) _)
    rw [turn_accept (by omega)]
    exact accept_step hw.1 (hn.answered (by omega))

/-- Whatever has happened to a transfer, it can go on fairly, and the client never falls silent. -/
theorem fair_run (hfrm : frm ≠ .any) (hx : (lossyNet c frm h req content).Reachable x) (hg : x.Going frm h) :
    ∃ run : Nat → Net, run 0 = x ∧ (lossyNet c frm h req content).Trace run ∧ (∀ n, (run n).Going frm h) ∧
      Net.Fair c frm h req content run ∧ ∀ n, ∃ k, n ≤ k ∧ (run k).up.length < (run (k + 1)).up.length := by
  obtain ⟨l, hl, hserves⟩ := net_listener hx hg.begun
  have h0 : x.Turning c frm h req content l 0 := ⟨hx, hg, hl, fun h0 => absurd rfl h0, fun h2 => by omega⟩
  have hall := turns_turning hfrm hserves h0
  refine ⟨x.turns c frm content l, rfl, ⟨hx, fun n => ((hall n).next hfrm hserves).2⟩, fun n => (hall n).going,
    turns_fair hfrm hserves h0, fun n => ⟨5 * n, by omega, ?_⟩⟩
  show _ < (Net.turn c frm content l (5 * n) _).up.length
  rw [turn_ask (by omega)]
  simp [Net.ask]

end

/-- The client of `askedTwice`, whose every second answer gets lost, has its file of 600 bytes
at some time. -/
theorem lossy_arrives_readK : ∃ run : Nat → Net, run 0 = askedTwice (.replicate 600 7) ∧
    Net.Fair plainConf ⟨1, 1024⟩ 0 reqK (.replicate 600 7) run ∧
    (∀ n, ∃ k, n ≤ k ∧ (run k).up.length < (run (k + 1)).up.length) ∧
    ∃ n, (run n).Done ∧ (run n).got.flatten = .replicate 600 7 := by
  have hgo : (askedTwice (.replicate 600 7)).Going ⟨1, 1024⟩ 0 :=
    ⟨List.cons_ne_nil _ _, ⟨_, _, _, _, ⟨rfl, rfl, rfl, rfl⟩, rfl⟩⟩
  have hlen : (List.replicate 600 (7 : UInt8)).length < 65536 * tftpBlock := by
    rw [List.length_replicate]
    decide
  obtain ⟨run, h0, ht, hgoes, hfair, hon⟩ := fair_run (by decide) (askedTwice_reachable _) hgo
  exact ⟨run, h0, hfair, hon, lossy_arrives plainConf ⟨1, 1024⟩ 0 reqK (.replicate 600 7) hlen
    (by decide) run ht
    hgoes hfair⟩

end Bootd
