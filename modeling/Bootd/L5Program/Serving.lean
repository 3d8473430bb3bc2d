import Bootd.L4Daemon.LossyNetwork
import Bootd.L4Daemon.TftpReturns
import Bootd.L5Program.Startup

/-!
# What the program is for

The first request of a client, over the network of `lossyNet`, and from there to the
end of the file.

* `net_first`: a request that is accepted brings the first block.
* `boot_rrqSafe`: the daemon survives the first request.
* `program_serves`: the program that was just started can serve each of its files.
-/
namespace Bootd

open Bootd.Core Bootd.Core.Exec Bootd.Core.Blocks

section
variable {c : Conf} {os : Os} {l : Listener} {frm loc : SockAddr} {req : Pkt} {h : HostId} {f : File}
  {content : List UInt8} {x : Net} {w : World}

/-- The file that a packet asks for is one. -/
theorem Ev.Requests.unique {e : Ev} {t : HostId} {f' : File} (h₁ : e.Requests w t f) (h₂ : e.Requests w t f') :
    f' = f := by
  obtain ⟨-, host, hh, hf⟩ := h₁
  obtain ⟨-, host', hh', hf'⟩ := h₂
  rw [hh] at hh'
  cases hh'
  exact Option.some.inj (hf'.symm.trans hf)

/-- The request is sent, handled, and the answer taken. -/
theorem net_first (hfrm : frm ≠ .any) (hx : (lossyNet c frm h req content).init x)
    (ha : Accepted c x.σ os l frm loc req h f content) (hlog : Logged os req)
    (hsafe : RrqSafe c os x.σ.w h) (hfull : os.FullReads)
    (hreads : ReadsAll os content 0) (hl : l ∈ x.σ.w.listeners) (hsvc : l.service = .tftp)
    (hpeer : l.peer = none ∨ l.peer = some frm) :
    ∃ ls x', (lossyNet c frm h req content).Run x ls x' ∧ x'.Going frm h := by
  obtain ⟨hσ, hhost, hop, -, hup, hdown, hgot⟩ := hx
  let e : Ev := .udp os l frm loc req
  obtain ⟨u, w', hrun⟩ : Returns (tftpHandler c os l frm loc req) x.σ.w.start :=
    rrq_returns hσ hhost hop hlog hsafe
  let σ' : Sys := ⟨w', x.σ.hist ++ [w'.out]⟩
  have hstep : (daemon c).step x.σ e σ' := ⟨⟨hl, hsvc⟩, hrun, rfl⟩
  obtain ⟨dl, s, ses, -, hses, hsid, hsends⟩ := next_rrq hσ ha hstep
  have hblock : readOf os content tftpBlock 0 = some (block tftpBlock 0 content) := by
    have hall : readOf os content tftpBlock (0 * tftpBlock) = some (block tftpBlock 0 content) :=
      readOf_all (by rwa [Nat.zero_mul])
    rwa [Nat.zero_mul] at hall
  rw [hblock] at hsends
  have hdata : w'.dataTo frm = [(1, block tftpBlock 0 content)] := dataTo_sent hfrm 1 _ hsends
  let x₁ : Net := { x with up := x.up ++ [req] }
  let x₂ : Net := { x₁ with σ := σ', down := x.down ++ w'.dataTo frm }
  let x₃ : Net := { x₂ with got := x.got ++ [block tftpBlock 0 content] }
  have h₁ : (lossyNet c frm h req content).step x (.send req) x₁ := .send x req (.inl rfl)
  have h₂ : (lossyNet c frm h req content).step x₁ (.handle e) x₂ := by
    refine .handle x₁ e σ' hstep ⟨hpeer, fun _ => ⟨?_, hfull, fun f' hf' => ?_⟩⟩
    · exact List.mem_append_right _ List.mem_cons_self
    · rw [ha.requests.unique hf']
      exact ha.openf
  have h₃ : (lossyNet c frm h req content).step x₂ (.take (block tftpBlock 0 content)) x₃ := by
    refine .take x₂ _ (fun ⟨d, hd, _⟩ => ?_) ?_
    · have hnil : x₂.got = [] := hgot
      rw [hnil] at hd
      cases hd
    · show ((x.got.length + 1) % 65536, _) ∈ x.down ++ w'.dataTo frm
      rw [hgot, hdata]
      exact List.mem_append_right _ List.mem_cons_self
  refine ⟨_, x₃, .snoc (.snoc (.snoc (.nil x) h₁) h₂) h₃, ?_, ⟨s, ses, _, _, hses, hsid⟩⟩
  exact List.append_ne_nil_of_right_ne_nil _ (List.cons_ne_nil _ _)

/-! ## After the start -/

theorem boot_rrqSafe (hb : Boot c w) (hnull : os.socket = true → os.nullStore = true) : RrqSafe c os w h := by
  have hnone := boot_sessionOf hb
  obtain ⟨t, ht, hhosts, hg⟩ := hb.hosts
  have hnext : t.w.next = w.next := by
    funext p
    unfold World.next
    rw [hhosts]
  have hchain := (configured_inv ht).1.chain
  rw [hnext, hg] at hchain
  refine ⟨fun s hs => ?_, hnull, t.accepted, hchain, fun q _ _ s hs => ?_, fun q _ _ s hs => ?_, ?_⟩
  · rw [hnone] at hs
    cases hs
  · rw [hnone] at hs
    cases hs
  · rw [hnone] at hs
    cases hs
  · have hidle : ∀ ps : List HostId, ps.filterMap (w.idle c os) = [] := by
      intro ps
      refine List.filterMap_eq_nil_iff.mpr fun p _ => ?_
      unfold World.idle
      rw [hnone]
      rfl
    rw [hidle]
    exact List.nodup_nil

theorem boot_not_busy (hb : Boot c w) (hmax : 0 < c.cSessionMax) : ¬Busy c os w h := by
  rintro ⟨ps, -, hle⟩
  rw [hb.gN] at hle
  omega

/-- The net around the program that was just started. -/
def Net.boot (w : World) : Net := ⟨⟨w, []⟩, [], [], []⟩

theorem boot_init (content : List UInt8) (hb : Boot c w) (hhost : utilIp2host w frm.addr = .ok (some h))
    (hop : req.tftpOp = .rrq) : (lossyNet c frm h req content).init (.boot w) := by
  refine ⟨LTS.reachable_init ⟨hb, rfl⟩, hhost, hop, fun s ses hs => ?_, rfl, rfl, rfl⟩
  have hnone : w.sessionOf h = none := boot_sessionOf hb h
  rw [show (Net.boot w).σ.w = w from rfl, hnone] at hs
  cases hs

end

/-- **Every file can be fetched**: the program was started with any command line and
any configuration, and has a socket for TFTP. A file that one of its hosts may read gets
to that host: the request, of at most 513 bytes, can be followed by a run to the end of
the transfer, and the client then has the file. The run is one on `plainOs`, where the
store of `listener_add` through NULL goes unnoticed. -/
theorem program_serves (env : StartEnv) (opts : List CmdOpt) (root : List ConfEntry) (w₀ w : World) (c : Conf)
    (hd : Distinct root) (hw : w₀.Fresh) (hstart : mainInit env opts root w₀ = .ok (c, w)) (l : Listener)
    (hl : l ∈ w.listeners) (hsvc : l.service = .tftp) (frm : SockAddr) (req : Pkt) (h : HostId) (f : File)
    (hfrm : frm ≠ .any) (hop : req.tftpOp = .rrq) (hfits : req.len ≤ 513)
    (hreq : (Ev.udp plainOs l frm .any req).Requests w h f) (hmax : 0 < c.cSessionMax) (content : List UInt8)
    (hlen : content.length < 65536 * tftpBlock) :
    ∃ ls x, (lossyNet c frm h req content).Run (.boot w) ls x ∧ x.Done ∧ x.got.flatten = content := by
  have hb := (mainInit_ok hd hw hstart).1
  have hinit := boot_init content hb hreq.1 hop
  have ha : Accepted c ⟨w, []⟩ (filled content) l frm .any req h f content :=
    ⟨hreq, boot_not_busy hb hmax, rfl, rfl⟩
  obtain ⟨ls, x, hrun, hgo⟩ := net_first hfrm hinit ha (logged_rrq hop hfits)
    (boot_rrqSafe hb fun _ => rfl) (fun k hk => by
    cases hk
    decide) (filled_readsAll content 0) hl hsvc (.inl (hb.listeners l hl).2.1)
  have hx := (LTS.reachable_init hinit).run hrun
  obtain ⟨ls', x', hrun', hdone⟩ := net_completes hlen hfrm hx hgo
  exact ⟨ls ++ ls', x', hrun.append hrun', hdone, (lossy_arrived hlen (hx.run hrun')).whole hdone⟩

/-! ## The client of `bootForest` -/

/-- The request of 10.0.0.2 for `k` on a listener. -/
def askOn (l : Listener) : Ev := .udp plainOs l ⟨.ofBytes 10 0 0 2, 1024⟩ .any reqK

/-- The program has a socket for TFTP, sessions, and a file for the request. -/
def readyFor (r : Conf × World) : Bool :=
  r.2.listeners.any (fun l => decide (l.service = .tftp)) &&
  (match utilIp2host r.2 (.ofBytes 10 0 0 2) with
    | .ok (some h) => ((r.2.hosts[h]?).bind fun host => (askOn port69).file host).isSome
    | _ => false) && decide (0 < r.1.cSessionMax)

theorem bootForest_ready : ∃ c w, mainInit bootEnv [.c (cstr "bootd.conf")] (bootForest.entries 0) freshWorld =
    .ok (c, w) ∧ (∃ l ∈ w.listeners, l.service = .tftp) ∧ (∃ h f, ∀ l, (askOn l).Requests w h f) ∧
      0 < c.cSessionMax := by
  have h : (mainInit bootEnv [.c (cstr "bootd.conf")] (bootForest.entries 0) freshWorld).toOption.any readyFor =
    true := by decide +kernel
  obtain ⟨r, hr, h⟩ := ok_of_any h
  simp only [readyFor, Bool.and_eq_true, decide_eq_true_eq, List.any_eq_true] at h
  obtain ⟨⟨⟨l, hl, hsvc⟩, hfile⟩, hmax⟩ := h
  refine ⟨r.1, r.2, hr, ⟨l, hl, hsvc⟩, ?_, hmax⟩
  split at hfile
  · rename_i h hip
    obtain ⟨f, hf⟩ := Option.isSome_iff_exists.mp hfile
    obtain ⟨host, hh, hf⟩ := Option.bind_eq_some_iff.mp hf
    exact ⟨h, f, fun l => ⟨hip, host, hh, hf⟩⟩
  · cases hfile

/-- A file of 600 bytes gets to it. -/
theorem program_serves_k : ∃ c w, mainInit bootEnv [.c (cstr "bootd.conf")] (bootForest.entries 0) freshWorld =
    .ok (c, w) ∧ ∃ h ls x, (lossyNet c ⟨.ofBytes 10 0 0 2, 1024⟩ h reqK (.replicate 600 7)).Run (.boot w) ls x ∧
      x.Done ∧ x.got.flatten = .replicate 600 7 := by
  obtain ⟨c, w, hstart, ⟨l, hl, hsvc⟩, ⟨h, f, hreq⟩, hmax⟩ := bootForest_ready
  refine ⟨c, w, hstart, h, program_serves bootEnv _ _ freshWorld w c (entries_distinct 0 bootForest)
    freshWorld_fresh hstart l hl hsvc ⟨.ofBytes 10 0 0 2, 1024⟩ reqK h f (by decide) (by decide)
      (by decide) (hreq l) hmax _ ?_⟩
  rw [List.length_replicate]
  decide

end Bootd
