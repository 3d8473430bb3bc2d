import Bootd.Core.Ledger
import Bootd.L4Daemon.Request

/-!
# A clone takes its template's session with it

`host_clone` (src/host.c:17-37) copies the session pointer of the template, so
after the boot request of an unknown machine two hosts can have one session.
`host_session_add` then ends it for the clone and leaves the template with a
pointer to freed memory. And a clone that `host_add` refuses, for want of a name
of its own, is served all the same: its session counts in `g_n_sessions`, and
belongs to no listed host.

Counterexample: a client with an active session, and a boot request from an
unknown machine of its type (`session_count_shared`).

`session_count_exact`: in every run in which no host with a session is cloned
and no refused clone is granted one, the count is the number of listed hosts
with a session, no two hosts share one, and the count stays within its bounds.
-/
namespace Bootd

open Bootd.Core

/-- The session count is the number of listed hosts with a session, no two hosts
share one, and the count is within its bounds. -/
structure SessionsExact (c : Conf) (w : World) : Prop where
  count : ∃ S : Finset HostId, (∀ p, p ∈ S ↔ w.Listed p ∧ (w.sessionOf p).isSome) ∧
    w.gNSessions = S.card
  unshared : ∀ p q s, w.sessionOf p = some s → w.sessionOf q = some s → p = q
  bounds : 0 ≤ c.cSessionMax → 0 ≤ w.gNSessions ∧ w.gNSessions ≤ c.cSessionMax

/-- `host_add` will not list the clone of `t`: it cannot be completed, or a
listed host has the name it gets. -/
def Ev.Refused (c : Conf) (w : World) (t : HostId) : Ev → Prop
  | .udp _ _ _ _ _ => False
  | .link os _ p => ∀ tmpl, w.hosts[t]? = some tmpl → ∀ h n,
      hostComplete c os (w.allocHost (cloneOf tmpl none (some p.rmpSaddr) none))
        (cloneOf tmpl none (some p.rmpSaddr) none) = .ok (h, true) → h.name = some n →
      ∃ a, w.Listed a ∧ w.NamedLike n a

/-- If the packet makes a clone, its template has no session, and if `host_add`
refuses the clone, the packet does not get it a session. -/
def Ev.CloneSafe (c : Conf) (w : World) (e : Ev) : Prop :=
  e.clones w → ∀ t, e.host w = .ok (some t) → w.sessionOf t = none ∧
    (e.Refused c w t → ∀ f, e.Requests w t f → Busy c e.os w t)

/-- The memory keeps the ledger `Λ`. -/
structure Books (w : World) (Λ : Ledger HostId SessId) : Prop where
  of : ∀ p, w.sessionOf p = Λ.of p
  count : w.gNSessions = Λ.holders.card
  bound : ∀ p s, w.sessionOf p = some s → s < w.sessions.length

section
variable {c : Conf} {os : Os} {e : Ev} {w w₁ w₂ w' : World} {Λ : Ledger HostId SessId}
  {h t : HostId} {host : Host} {f : File} {L : List HostId} {es : List (HostId × SessId)}

theorem Books.congr (hb : Books w Λ) (hs : ∀ p, w'.sessionOf p = w.sessionOf p)
    (hg : w'.gNSessions = w.gNSessions) (hl : w'.sessions.length = w.sessions.length) : Books w' Λ :=
  ⟨fun p => (hs p).trans (hb.of p), hg.trans hb.count, fun p s h => by
    rw [hl]; exact hb.bound p s ((hs p).symm.trans h)⟩

/-- Every session that ends is an entry released. -/
theorem Books.ends (hb : Books w Λ) (he : Ends es w w') :
    Books w' (es.foldl (fun Λ e => Λ.release e.1) Λ) := by
  induction he with
  | nil => exact hb
  | @snoc w w₁ w₂ es p s ses he hp hs hr ih =>
    have hb := ih hb
    have hrel := releaseFds_released hr
    have hof := (hb.of p).symm.trans hp
    simp only [List.foldl_append, List.foldl_cons, List.foldl_nil]
    refine ⟨fun q => ?_, ?_, fun q t hq => ?_⟩
    · rw [sessionOf_endSession, hrel.sessionOf, hb.of]; rfl
    · have := Ledger.card_release hof
      have hcount := hb.count
      rw [World.endSession_gNSessions, hrel.gN]
      omega
    · rw [sessionOf_endSession, hrel.sessionOf] at hq
      split at hq
      · cases hq
      · have := hb.bound q t hq
        simpa [Slots.clear, hrel.sessions] using this

theorem Books.prelude {nl : Option Listener} (hb : Books w Λ) (hpre : Prelude h w e nl w') :
    (∃ Λ', Books w' Λ') ∧ w'.gNSessions ≤ w.gNSessions ∧
      ∀ p s, w'.sessionOf p = some s → w.sessionOf p = some s := by
  cases hpre with
  | tftp os l frm loc pkt es w₁ nl w₂ he hown hnl =>
    have hb₁ := hb.ends he
    have hgN := he.gN
    refine ⟨⟨_, hb₁.congr ?_ ?_ ?_⟩, ?_, fun p s hs => ?_⟩
    · intro p; cases hnl <;> rfl
    · cases hnl <;> rfl
    · cases hnl <;> rfl
    · have : w'.gNSessions = w₁.gNSessions := by cases hnl <;> rfl
      omega
    · have hs : w₁.sessionOf p = some s := by cases hnl <;> exact hs
      rcases he.sessionOf_or p with e | ⟨e, -⟩
      · rw [← e]; exact hs
      · rw [hs] at e; cases e
  | rmp => exact ⟨⟨Λ, hb.congr (fun _ => rfl) rfl rfl⟩, Int.le_refl _, fun _ _ hs => hs⟩

/-- A session that is granted is an entry made. -/
theorem Books.start (hb : Books w Λ) (ses : Session) (hlt : h < w.hosts.length)
    (hn : w.sessionOf h = none) : ∃ Λ', Books (w.startSession h ses) Λ' := by
  have hfresh : ∀ q, Λ.of q ≠ some w.sessions.length := by
    intro q hq
    have := hb.bound q _ ((hb.of q).trans hq)
    exact Nat.lt_irrefl _ this
  refine ⟨Λ.grant h w.sessions.length hfresh, fun p => ?_, ?_, fun p s hs => ?_⟩
  · rw [sessionOf_startSession]
    by_cases hp : p = h
    · subst hp
      rw [if_pos ⟨rfl, hlt⟩]; exact (if_pos rfl).symm
    · rw [if_neg fun hc => hp hc.1, hb.of]; exact (if_neg hp).symm
  · have := Ledger.card_grant hfresh ((hb.of h).symm.trans hn)
    have hcount := hb.count
    rw [World.startSession_gNSessions]
    omega
  · rw [sessionOf_startSession] at hs
    have hlen : (w.startSession h ses).sessions.length = w.sessions.length + 1 := by
      simp [Slots.push]
    rw [hlen]
    split at hs
    · cases hs; exact Nat.lt_succ_self _
    · exact Nat.lt_succ_of_lt (hb.bound p s hs)

theorem Books.granting (hb : Books w Λ) (hlt : h < w.hosts.length) (hn : w.sessionOf h = none)
    {svc : Nat} {sid : Int} (hg : Granting c os svc sid h f w w') :
    (∃ Λ', Books w' Λ') ∧
      ((w'.gNSessions = w.gNSessions ∧ ∀ p, w'.sessionOf p = w.sessionOf p) ∨
        (w.gNSessions < c.cSessionMax ∧ w'.gNSessions = w.gNSessions + 1 ∧
          ∀ p s, w'.sessionOf p = some s → p = h ∨ w.sessionOf p = some s)) := by
  have hold : ∀ ses p s, (w.startSession h ses).sessionOf p = some s →
      p = h ∨ w.sessionOf p = some s := by
    intro ses p s hs
    rw [sessionOf_startSession] at hs
    split at hs
    · exact .inl (by rename_i hc; exact hc.1)
    · exact .inr hs
  cases hg with
  | busy ios => exact ⟨⟨Λ, hb.congr (fun _ => rfl) rfl rfl⟩, .inl ⟨rfl, fun _ => rfl⟩⟩
  | failed ses err ios hmax =>
    obtain ⟨Λ', hb'⟩ := hb.start ses hlt hn
    refine ⟨⟨Λ', hb'.congr (fun _ => rfl) rfl ?_⟩, .inr ⟨hmax, rfl, hold ses⟩⟩
    simp [Slots.update]
  | opened ses d g ios w' hmax _ _ _ hw =>
    subst hw
    obtain ⟨Λ', hb'⟩ := hb.start ses hlt hn
    refine ⟨⟨Λ', hb'.congr (fun _ => rfl) rfl ?_⟩, .inr ⟨hmax, rfl, hold ses⟩⟩
    simp [Slots.update]

/-! ## The invariant -/

/-- A table whose sessions are in the books, and only listed hosts have any. -/
structure Sound (c : Conf) (w : World) (L : List HostId) : Prop where
  hosts : HostsOk w L
  books : ∃ Λ, Books w Λ
  listed : ∀ p s, w.sessionOf p = some s → p ∈ L
  max : 0 ≤ c.cSessionMax → w.gNSessions ≤ c.cSessionMax

theorem Sound.exact (hi : Sound c w L) : SessionsExact c w := by
  obtain ⟨Λ, hb⟩ := hi.books
  have hcount := hb.count
  refine ⟨⟨Λ.holders, fun p => ?_, hcount⟩, fun p q s hp hq => ?_, fun h0 => ⟨by omega, hi.max h0⟩⟩
  · rw [Λ.mem_holders, ← hb.of]
    refine ⟨fun hs => ⟨?_, hs⟩, fun hs => hs.2⟩
    obtain ⟨s, hs⟩ := Option.isSome_iff_exists.mp hs
    exact hi.hosts.lasso.mem_iff.mp (hi.listed p s hs)
  · rw [hb.of] at hp hq
    exact Λ.exclusive p q s hp hq

/-- After a clone that is safe, the new host has no session, and is listed or
will not get one. -/
theorem Sound.admitted (hi : Sound c w L) (ha : Admitted c w e t h w₁) (hsafe : e.CloneSafe c w) :
    ∃ L', Sound c w₁ L' ∧ (h ∈ L' ∨ e.Refused c w t ∧ e.clones w) := by
  cases ha with
  | known e h hhost hcl => exact ⟨L, hi, .inl (Ev.host_mem hi.hosts hhost)⟩
  | cloned os l p t tmpl h b w' hhost hcl htm hadd =>
    have ht := Ev.host_mem hi.hosts hhost
    obtain ⟨hnone, -⟩ := hsafe hcl t hhost
    obtain ⟨rfl, hf, hok, host, hh, hses, -⟩ := clone_ok hi.hosts ht htm hadd
    have hsame : ∀ p, w₁.sessionOf p = w.sessionOf p := by
      intro p
      rcases Nat.lt_trichotomy p w.hosts.length with hlt | rfl | hgt
      · exact hf.sessionOf hlt
      · rw [sessionOf_eq hh, hses, ← sessionOf_eq htm, hnone, World.sessionOf,
          List.getElem?_eq_none (Nat.le_refl _)]; rfl
      · have hlen := hf.length
        rw [World.sessionOf, World.sessionOf, List.getElem?_eq_none (by omega),
          List.getElem?_eq_none (by omega)]
    obtain ⟨Λ, hb⟩ := hi.books
    refine ⟨_, ⟨hok, ⟨Λ, hb.congr hsame hf.gN (by rw [hf.sessions])⟩, fun q s hs => ?_, ?_⟩, ?_⟩
    · have hq := hi.listed q s ((hsame q).symm.trans hs)
      split
      · exact List.mem_append_left _ hq
      · exact hq
    · rw [hf.gN]; exact hi.max
    · cases b with
      | true => exact .inl (List.mem_append_right _ (List.mem_singleton.mpr rfl))
      | false =>
        refine .inr ⟨fun tmpl' htm' h' n hc hname => ?_, hcl⟩
        rw [htm] at htm'; cases htm'
        obtain ⟨h2, complete, hc2, -, -, -, hcase⟩ := hostAddNew_ok hi.hosts.lasso hadd
        rw [hc] at hc2; cases hc2
        rcases hcase with ⟨-, -, -, hlike⟩ | ⟨hb, -⟩
        · obtain ⟨a, ha, hl⟩ := hlike rfl n hname
          exact ⟨a, hi.hosts.lasso.mem_iff.mp ha, hl⟩
        · cases hb

/-- A step that meets the condition. -/
theorem Sound.handle {u : Unit} (hi : Sound c w L) (hsafe : e.CloneSafe c w)
    (hr : e.handle c w = .ok u w') : ∃ L', Sound c w' L' := by
  rcases handle_ok hr with ⟨ios, -, rfl⟩ | ⟨t, h, w₁, host, ha, hh, hs⟩
  · obtain ⟨Λ, hb⟩ := hi.books
    exact ⟨L, hi.hosts.emits ios,
      ⟨Λ, hb.congr (fun _ => rfl) rfl rfl⟩, hi.listed, hi.max⟩
  obtain ⟨L', hi', hmem⟩ := hi.admitted ha hsafe
  obtain ⟨Λ, hb⟩ := hi'.books
  have hok := (SameHosts.served hs).hostsOk hi'.hosts
  cases hs with
  | plain ios => exact ⟨L', hok, ⟨Λ, hb.congr (fun _ => rfl) rfl rfl⟩, hi'.listed, hi'.max⟩
  | answer s ses ios =>
    exact ⟨L', hok, ⟨Λ, hb.congr (fun _ => rfl) rfl (by simp [Slots.update])⟩, hi'.listed, hi'.max⟩
  | done es w' _ _ he hown =>
    have hgN := he.gN
    refine ⟨L', hok, ⟨_, hb.ends he⟩, fun p s hp => ?_, fun h0 => ?_⟩
    · rcases he.sessionOf_or p with e | ⟨e, -⟩
      · exact hi'.listed p s (e.symm.trans hp)
      · rw [hp] at e; cases e
    · have := hi'.max h0
      omega
  | request f nl w₀ ps w₃ w' hf hpre hpath hlive he hlt hnone hg _ =>
    obtain ⟨⟨Λ₀, hb₀⟩, hle, hsub⟩ := hb.prelude hpre
    have hb₃ := hb₀.ends he
    have hgN := he.gN
    have hlist : ∀ p s, w₃.sessionOf p = some s → p ∈ L' := by
      intro p s hp
      rcases he.sessionOf_or p with e | ⟨e, -⟩
      · exact hi'.listed p s (hsub p s (e.symm.trans hp))
      · rw [hp] at e; cases e
    obtain ⟨hbooks, hcase⟩ := hb₃.granting hlt hnone hg
    rcases hcase with ⟨hg', hses⟩ | ⟨hmax, hg', hses⟩
    · refine ⟨L', hok, hbooks, fun p s hp => hlist p s ((hses p).symm.trans hp), fun h0 => ?_⟩
      have := hi'.max h0
      omega
    · -- granted: the host is listed, since a refused clone would be busy
      have hmem : h ∈ L' := by
        rcases hmem with hmem | ⟨href, hcl⟩
        · exact hmem
        · have hreq := ha.requests hi.hosts hh hf
          have hbusy := (hsafe hcl t hreq.1).2 href f hreq
          have := (request_busy hi.hosts ha hpre hpath hlive he).mp hbusy
          omega
      refine ⟨L', hok, hbooks, fun p s hp => ?_, fun h0 => by omega⟩
      rcases hses p s hp with rfl | hp
      · exact hmem
      · exact hlist p s hp

theorem boot_sound (hb : Boot c w) : ∃ L, Sound c w L := by
  obtain ⟨L, hok⟩ := boot_hostsOk hb
  have hnone := boot_sessionOf hb
  refine ⟨L, hok, ⟨.empty, hnone, hb.gN, fun p s hs => ?_⟩, fun p s hs => ?_, fun h0 => ?_⟩
  · rw [hnone] at hs; cases hs
  · rw [hnone] at hs; cases hs
  · rw [hb.gN]; exact h0

end

/-- **Session accounting is exact**, in every run that clones no host with a
session and gets no session for a clone that is not listed. -/
theorem session_count_exact (c : Conf) (σ : Sys)
    (hr : ((daemon c).guard fun σ e => e.CloneSafe c σ.w).Reachable σ) : SessionsExact c σ.w := by
  have hind : ((daemon c).guard fun σ e => e.CloneSafe c σ.w).Inductive
      fun σ => ∃ L, Sound c σ.w L := by
    refine ⟨fun σ h => boot_sound h.1, fun σ e σ' hi hs => ?_⟩
    obtain ⟨L, hi⟩ := hi
    refine Sound.handle (w := σ.w.start) ⟨?_, ?_, hi.listed, hi.max⟩ hs.2 hs.1.2.1
    · exact hi.hosts.start
    · obtain ⟨Λ, hb⟩ := hi.books
      exact ⟨Λ, hb.congr (fun _ => rfl) rfl rfl⟩
  obtain ⟨L, hi⟩ := hind.reachable σ hr
  exact hi.exact

/-- A client that has made a read request: one session, one holder. -/
theorem session_count_readK : (bootSys.next plainConf (readK plainOs)).w.gNSessions = 1 ∧
    SessionsExact plainConf (bootSys.next plainConf (readK plainOs)).w := by
  refine ⟨rfl, session_count_exact plainConf _ ?_⟩
  have h0 : ((daemon plainConf).guard fun σ e => e.CloneSafe plainConf σ.w).Reachable bootSys :=
    LTS.reachable_init ⟨boot_served, rfl⟩
  exact h0.step (l := readK plainOs) ⟨readK_step, fun hc => absurd hc id⟩

/-- **Counterexample**: a client has a session, and an unknown machine of its
type sends a probe. Both hosts now have the session. -/
theorem session_count_shared : ¬ ∀ (c : Conf) (σ : Sys), (daemon c).Reachable σ →
    SessionsExact c σ.w := by
  intro h
  have h2 := reading_reachable.step (l := bootK plainOs (plainEther 3) rmpProbesid)
    (daemon_next ⟨List.mem_cons_of_mem _ List.mem_cons_self, rfl⟩ (by decide +kernel))
  have := (h plainConf _ h2).unshared 0 1 0 rfl rfl
  cases this

end Bootd
