import Bootd.Bugs.OwnAddress
import Bootd.L2State.BestMatch
import Bootd.L4Daemon.LinkReply
import Bootd.L4Daemon.Whoami
import Bootd.L5Program.Startup

/-!
# The steps of a machine that boots

A machine that knows nothing but its Ethernet address asks RARP for its IP address,
WHOAMI for the name that goes with the address, GETFILE for the file that goes with
the name, and TFTP for that file. Nothing ties the four requests together: each is
looked up anew, by another key, and other packets come in between.

As long as no packet is served as a clone, the daemon leaves the host table of the
configuration alone (`run_sameHosts`), so each lookup is one in that table
(`SameHosts.table`). A key may still stand for several hosts: RARP means the first one
with the Ethernet address, the other three the first one with the IP address.

* `netboot_agrees`: what the four answers have to do with each other.
-/
namespace Bootd

open Bootd.Core

/-! ## The table over a run -/

/-- No packet is served as a clone. -/
def daemonAlone (c : Conf) : LTS Sys Ev := (daemon c).guard fun σ e => ¬e.clones σ.w

section
variable {c : Conf} {w w' : World} {u : Unit} {e : Ev} {σ σ' : Sys} {es : List Ev} {t : Table} {ip : Ip}
  {eth : Ether} {p : HostId}

theorem handle_sameHosts (hn : ¬e.clones w) (hr : e.handle c w = .ok u w') : SameHosts w w' := by
  rcases handle_ok hr with ⟨ios, -, rfl⟩ | ⟨t, h, w₁, host, ha, hh, hs⟩
  · exact .of_eq rfl rfl
  · cases ha with
    | known => exact .served hs
    | cloned os l p t tmpl h b w' hhost hcl => exact absurd hcl hn

theorem run_sameHosts (hrun : (daemonAlone c).Run σ es σ') : SameHosts σ.w σ'.w := by
  induction hrun with
  | nil => exact .of_eq rfl rfl
  | @snoc σ₁ σ₂ es e _ hs ih =>
    have hstep : SameHosts σ₁.w.start σ₂.w := handle_sameHosts (e := e) hs.2 hs.1.2.1
    exact ih.trans ⟨hstep.gHosts, hstep.hosts⟩

/-- The records of the table, with the sessions there are now. -/
theorem SameHosts.table (hs : SameHosts t.w w) (hi : TableInv t) : TableInv ⟨w, t.accepted⟩ := by
  have hname : ∀ q, w.nameOf q = t.w.nameOf q := by
    intro q
    rw [World.nameOf, World.nameOf, hs.hosts q]
    cases t.w.hosts[q]? <;> rfl
  refine ⟨?_, fun q hq g hg => ?_, hi.names.imp fun {a b} hab x y hx hy => ?_⟩
  · show Chain.Path w.next w.gHosts t.accepted none
    rw [hs.gHosts]
    exact hi.chain.congr fun a _ => hs.next a
  · have hg : w.hosts[q]? = some g := hg
    rw [hs.hosts q, Option.map_eq_some_iff] at hg
    obtain ⟨g₀, hg₀, rfl⟩ := hg
    have hcomplete := hi.complete q hq g₀ hg₀
    exact ⟨hcomplete.name, hcomplete.service, hcomplete.files⟩
  · exact hab x y ((hname a).symm.trans hx) ((hname b).symm.trans hy)

/-- The first listed host with that Ethernet address. -/
def Table.withEther (t : Table) (eth : Ether) : Option HostId :=
  t.accepted.find? fun p => (t.w.hosts[p]?).any (·.eth == eth)

theorem TableInv.ether2host (hi : TableInv t) (eth : Ether) : utilEther2host t.w eth = .ok (t.withEther eth) := by
  refine hostFind_table hi.chain fun p _ h hh => ?_
  simp [hh]

/-- Both keys are fields that no packet changes. -/
theorem SameHosts.withIp (hs : SameHosts t.w w) : Table.withIp ⟨w, t.accepted⟩ ip = t.withIp ip := by
  unfold Table.withIp
  congr 1
  funext q
  show (w.hosts[q]?).any _ = _
  rw [hs.hosts q, Option.any_map]

theorem SameHosts.withEther (hs : SameHosts t.w w) : Table.withEther ⟨w, t.accepted⟩ eth = t.withEther eth := by
  unfold Table.withEther
  congr 1
  funext q
  show (w.hosts[q]?).any _ = _
  rw [hs.hosts q, Option.any_map]

end

/-! ## One answer after the other -/

section
variable {t : Table} {w : World} {os : Os} {l : Listener} {p : Pkt} {frame : List UInt8} {ip : Ip} {n : CStr}
  {port : Nat} {res : WhoamiRes} {fileId path : CStr} {file : GetfileRes} {q : HostId} {host : Host}
  {frm loc : SockAddr} {pkt : Pkt} {f : File} {d : HostId}

/-- RARP: the address of the first host with the Ethernet address. -/
theorem rarpReply_some (hi : TableInv t) (hs : SameHosts t.w w) (hr : rarpReply os l p w = some frame) :
    ∃ h host, t.withEther p.rarpTha = some h ∧ t.w.hosts[h]? = some host ∧
      host.service &&& serviceRarp ≠ 0 ∧ frame = rarpReplFrame p l.eth l.ip host.ip os.stack := by
  unfold rarpReply at hr
  split at hr
  swap
  · cases hr
  have hether : utilEther2host w p.rarpTha = .ok (t.withEther p.rarpTha) := by
    rw [← hs.withEther]
    exact (hs.table hi).ether2host _
  rw [hether] at hr
  cases hh : t.withEther p.rarpTha with
  | none =>
    rw [hh] at hr
    cases hr
  | some h =>
    rw [hh] at hr
    obtain ⟨g, hg, hr⟩ := Option.bind_eq_some_iff.mp hr
    split at hr
    · rename_i hsvc
      cases hr
      rw [hs.hosts h, Option.map_eq_some_iff] at hg
      obtain ⟨g₀, hg₀, rfl⟩ := hg
      exact ⟨h, g₀, rfl, hg₀, hsvc.1, rfl⟩
    · cases hr

/-- WHOAMI: the name of the first host with the IP address. -/
theorem whoami_some (hi : TableInv t) (hs : SameHosts t.w w)
    (hr : bootparamprocWhoami w ip port = .ok (some res)) :
    ∃ q host n, t.withIp ip = some q ∧ t.w.hosts[q]? = some host ∧ host.name = some n ∧
      res.clientName = some n := by
  obtain ⟨q, g, l, hq, hg, -, -, rfl⟩ := whoami_ok hr
  have hip := (hs.table hi).ip2host ip
  rw [hs.withIp] at hip
  have hfind : t.withIp ip = some q := by
    rw [hq, Except.ok.injEq] at hip
    exact hip.symm
  rw [hs.hosts q, Option.map_eq_some_iff] at hg
  obtain ⟨g₀, hg₀, rfl⟩ := hg
  obtain ⟨n, hn⟩ := Option.ne_none_iff_exists'.mp
    (hi.complete q (List.mem_of_find?_eq_some hfind) g₀ hg₀).name
  exact ⟨q, g₀, n, hfind, hg₀, hn, hn⟩

/-- GETFILE with the name of a listed host: a file of that host. -/
theorem getfile_some (hi : TableInv t) (hs : SameHosts t.w w) (hq : q ∈ t.accepted)
    (hg : t.w.hosts[q]? = some host) (hn : host.name = some n)
    (hr : bootparamprocGetfile w n fileId port = .ok (some file)) :
    ∃ g, utilName2file host.files serviceBootparm (some fileId) 0 = some g ∧ file.serverPath = g.path := by
  obtain ⟨q', g, f, l, hq', hg', -, hf, -, rfl⟩ := getfile_ok hr
  have hg₁ : w.hosts[q]? = some { host with session := w.sessionOf q } := by
    rw [hs.hosts q, hg]
    rfl
  have hname : w.nameOf q = some n := by
    rw [World.nameOf, hg₁]
    exact hn
  have hfind : utilName2host w n = .ok (some q) := (hs.table hi).name2host hq hname
  rw [hfind] at hq'
  cases hq'
  rw [hg₁] at hg'
  cases hg'
  exact ⟨f, hf, rfl⟩

/-- The file that a name finds has it as its path if there is a file with that path. -/
theorem name2file_path {fs : List File} {service : Nat} (hf : utilName2file fs service (some path) 0 = some f) :
    f.path = some path ↔ ∃ g ∈ fs, g.path = some path ∧ g.service &&& service ≠ 0 := by
  obtain ⟨hmem, hsvc, -⟩ := utilName2file_some hf
  refine ⟨fun hp => ⟨f, hmem, hp, hsvc⟩, fun ⟨g, hg, hp, hgsvc⟩ => ?_⟩
  have h0 : ∀ i < 1, ¬g.Goes (some path) i := by
    intro i hi
    rw [Nat.lt_one_iff.mp hi]
    exact id
  have hone : iFileMatch g service (some path) = 1 := (iFileMatch_iff Nat.one_ne_zero).mpr ⟨hgsvc, .inr hp, h0⟩
  have hhead : (buckets (fun n => iFileMatch n service (some path)) [1, 2, 3, 4] fs).head? = some f := by
    rw [List.head?_eq_getElem?, ← fileRanks_eq]
    exact hf
  obtain ⟨pre, post, rfl, hkey, hpre, hpost⟩ := buckets_head (by decide) hhead
  have hmem1 : iFileMatch g service (some path) ∈ [1, 2, 3, 4] := by
    rw [hone]
    exact List.mem_cons_self
  have hle : iFileMatch f service (some path) ≤ 1 := by
    rw [← hone]
    rcases List.mem_append.mp hg with hg | hg
    · exact (hpre g hg hmem1).le
    · rcases List.mem_cons.mp hg with rfl | hg
      · exact le_refl _
      · exact hpost g hg hmem1
  have hpos : iFileMatch f service (some path) ≠ 0 := by
    intro hzero
    rw [hzero] at hkey
    simp at hkey
  have hrank : iFileMatch f service (some path) = 1 := by omega
  rcases ((iFileMatch_iff Nat.one_ne_zero).mp hrank).2.1 with hnone | hpath
  · cases hnone
  · exact hpath

/-- TFTP: a file of the first host with the sender's address. -/
theorem request_some (hi : TableInv t) (hs : SameHosts t.w w)
    (hname : (tftpGetFilename pkt).map cstrOf = some path)
    (hr : (Ev.udp os l frm loc pkt).Requests w d f) :
    t.withIp frm.addr = some d ∧ ∃ host, t.w.hosts[d]? = some host ∧
      utilName2file host.files serviceTftp (some path) 0 = some f := by
  obtain ⟨hd, g, hg, hf⟩ := hr
  have hip := (hs.table hi).ip2host frm.addr
  rw [hs.withIp] at hip
  have hd : utilIp2host w frm.addr = .ok (some d) := hd
  rw [hd, Except.ok.injEq] at hip
  rw [hs.hosts d, Option.map_eq_some_iff] at hg
  obtain ⟨g₀, hg₀, rfl⟩ := hg
  refine ⟨hip.symm, g₀, hg₀, ?_⟩
  simp only [Ev.file] at hf
  split at hf
  · rw [← hname]
    exact hf
  · cases hf

/-- The bytes of an address determine it. -/
theorem ipBytes_inj {a b : Ip} (h : ipBytes a = ipBytes b) : a = b := by
  simp only [ipBytes, List.cons.injEq, and_true] at h
  obtain ⟨h₂₄, h₁₆, h₈, h₀⟩ := h
  have e₂₄ : a.toNat / 2 ^ 24 % 256 = b.toNat / 2 ^ 24 % 256 := by
    rw [← toUInt8_shift a 24 (by omega), ← toUInt8_shift b 24 (by omega)]
    exact congrArg UInt8.toNat h₂₄
  have e₁₆ : a.toNat / 2 ^ 16 % 256 = b.toNat / 2 ^ 16 % 256 := by
    rw [← toUInt8_shift a 16 (by omega), ← toUInt8_shift b 16 (by omega)]
    exact congrArg UInt8.toNat h₁₆
  have e₈ : a.toNat / 2 ^ 8 % 256 = b.toNat / 2 ^ 8 % 256 := by
    rw [← toUInt8_shift a 8 (by omega), ← toUInt8_shift b 8 (by omega)]
    exact congrArg UInt8.toNat h₈
  have e₀ : a.toNat % 256 = b.toNat % 256 := by
    rw [← UInt32.toNat_toUInt8, ← UInt32.toNat_toUInt8, h₀]
  have ha := a.toNat_lt
  have hb := b.toNat_lt
  exact UInt32.toNat_inj.mp (by omega)

/-- Of two keys of one host, the second finds it, or a host before it that has the same. -/
theorem find_before {α : Type} [BEq α] [LawfulBEq α] {L : List α} {P : α → Bool} {a b : α} (ha : a ∈ L)
    (hP : P a = true) (hb : L.find? P = some b) : b = a ↔ ∀ x ∈ L.takeWhile (· != a), P x = false := by
  have hsplit := List.takeWhile_append_dropWhile (p := (· != a)) (l := L)
  obtain ⟨rest, hrest⟩ : ∃ rest, L.dropWhile (· != a) = a :: rest := by
    cases hd : L.dropWhile (· != a) with
    | nil =>
      have hall := List.dropWhile_eq_nil_iff.mp hd a ha
      simp at hall
    | cons x rest =>
      have hx : (x != a) = false := by
        have := List.head?_dropWhile_not (· != a) L
        rw [hd] at this
        simpa using this
      have : x = a := by simpa using hx
      exact ⟨rest, by rw [this]⟩
  rw [hrest] at hsplit
  rw [← hsplit, List.find?_append] at hb
  constructor
  · rintro rfl x hx
    cases hf : (L.takeWhile (· != b)).find? P with
    | none => simpa using List.find?_eq_none.mp hf x hx
    | some y =>
      rw [hf] at hb
      have hy : y = b := by simpa using hb
      have hmem := List.mem_takeWhile_imp (List.mem_of_find?_eq_some hf)
      simp [hy] at hmem
  · intro hall
    have hf : (L.takeWhile (· != a)).find? P = none := List.find?_eq_none.mpr fun x hx => by simp [hall x hx]
    rw [hf, Option.none_or, List.find?_cons_of_pos hP] at hb
    exact (Option.some.inj hb).symm

end

/-- **A machine that boots**: the program was started with any command line and any
configuration, and handles any packets, but for boot requests that it serves as clones, before
and between the four requests of a machine. RARP's frame for it has the address `ip`, WHOAMI
has the name `n` for `ip`, GETFILE the path for `n`, and it asks for that path by TFTP.

All but RARP have answered from one host `q` of the configuration, the first one listed with
the address `ip`; it is the host `h` of RARP unless one before that has the same address. And
what TFTP opens is the path that GETFILE named exactly if `q` has a file of that path which is
allowed for TFTP. -/
theorem netboot_agrees (env : StartEnv) (opts : List CmdOpt) (root : List ConfEntry) (w₀ w : World) (c : Conf)
    (hd : Distinct root) (hw : w₀.Fresh) (hstart : mainInit env opts root w₀ = .ok (c, w))
    (σ₁ σ₂ σ₃ σ₄ : Sys) (es₁ es₂ es₃ es₄ : List Ev) (h₁ : (daemonAlone c).Run ⟨w, []⟩ es₁ σ₁)
    (h₂ : (daemonAlone c).Run σ₁ es₂ σ₂) (h₃ : (daemonAlone c).Run σ₂ es₃ σ₃) (h₄ : (daemonAlone c).Run σ₃ es₄ σ₄)
    (os : Os) (l : Listener) (p : Pkt) (frame : List UInt8) (ip : Ip)
    (hrarp : rarpReply os l p σ₁.w = some frame) (hip : rarpTpa frame = ipBytes ip)
    (port : Nat) (res : WhoamiRes) (n : CStr)
    (hwhoami : bootparamprocWhoami σ₂.w ip port = .ok (some res)) (hn : res.clientName = some n)
    (fileId : CStr) (port' : Nat) (file : GetfileRes) (path : CStr)
    (hgetfile : bootparamprocGetfile σ₃.w n fileId port' = .ok (some file)) (hpath : file.serverPath = some path)
    (os' : Os) (l' : Listener) (frm loc : SockAddr) (pkt : Pkt) (d : HostId) (f : File) (hfrm : frm.addr = ip)
    (hname : (tftpGetFilename pkt).map cstrOf = some path)
    (hreq : (Ev.udp os' l' frm loc pkt).Requests σ₄.w d f) :
    ∃ L, Chain.Path w.next w.gHosts L none ∧ ∃ h q host, Table.withEther ⟨w, L⟩ p.rarpTha = some h ∧
      Table.withIp ⟨w, L⟩ ip = some q ∧ w.hosts[q]? = some host ∧ host.name = some n ∧ d = q ∧
      (q = h ↔ ∀ g ∈ L.takeWhile (· != h), (w.hosts[g]?).any (ip == ·.ip) = false) ∧
      (∃ g, utilName2file host.files serviceBootparm (some fileId) 0 = some g ∧ g.path = some path) ∧
      (f.path = some path ↔ ∃ g ∈ host.files, g.path = some path ∧ g.service &&& serviceTftp ≠ 0) := by
  have hboot := (mainInit_ok hd hw hstart).1
  obtain ⟨t₀, ht₀, hhosts, hg⟩ := hboot.hosts
  have hsame₀ : SameHosts t₀.w w := .of_eq hg.symm hhosts.symm
  let t : Table := ⟨w, t₀.accepted⟩
  have hi : TableInv t := hsame₀.table (configured_inv ht₀).1
  have s₁ : SameHosts t.w σ₁.w := run_sameHosts h₁
  have s₂ : SameHosts t.w σ₂.w := s₁.trans (run_sameHosts h₂)
  have s₃ : SameHosts t.w σ₃.w := s₂.trans (run_sameHosts h₃)
  have s₄ : SameHosts t.w σ₄.w := s₃.trans (run_sameHosts h₄)
  obtain ⟨h, hrec, hh, hhrec, -, rfl⟩ := rarpReply_some hi s₁ hrarp
  rw [(rarpReplFrame_spa _ _ _ _ _).2] at hip
  have hip := ipBytes_inj hip
  obtain ⟨q, host, n', hq, hhost, hn', hres⟩ := whoami_some hi s₂ hwhoami
  rw [hres, Option.some.injEq] at hn
  rw [hn] at hn'
  have hqmem : q ∈ t.accepted := List.mem_of_find?_eq_some hq
  obtain ⟨g, hgfile, hgpath⟩ := getfile_some hi s₃ hqmem hhost hn' hgetfile
  rw [hpath] at hgpath
  obtain ⟨hd', host', hhost', hf⟩ := request_some hi s₄ hname hreq
  rw [hfrm, hq, Option.some.injEq] at hd'
  subst hd'
  rw [hhost, Option.some.injEq] at hhost'
  subst hhost'
  have hhmem : h ∈ t.accepted := List.mem_of_find?_eq_some hh
  have hhas : (w.hosts[h]?).any (ip == ·.ip) = true := by
    rw [show w.hosts[h]? = some hrec from hhrec, Option.any_some, hip]
    exact beq_self_eq_true ip
  exact ⟨t₀.accepted, hi.chain, h, q, host, hh, hq, hhost, hn', rfl, find_before hhmem hhas hq,
    ⟨g, hgfile, hgpath.symm⟩, name2file_path hf⟩

/-! ## The client of `bootForest` -/

/-- Its request for the path that GETFILE has. -/
def reqPath : Pkt := .ofBytes ([0, 1] ++ cstr "/b/k" ++ [0])

def askPath : Ev := .udp plainOs port69 ⟨.ofBytes 10 0 0 2, 1024⟩ .any reqPath

theorem reqPath_name : (tftpGetFilename reqPath).map cstrOf = some (cstr "/b/k") := by decide +kernel

/-- The four requests are answered. -/
def netboots (w : World) : Bool :=
  (rarpReply plainOs linkPort (rarpRequest (plainEther 3)) w).any (fun frame => rarpTpa frame == [10, 0, 0, 2]) &&
  (bootparamprocWhoami w (.ofBytes 10 0 0 2) 4).toOption.any
    (fun o => o.any (·.clientName == some (cstr "a"))) &&
  (bootparamprocGetfile w (cstr "a") (cstr "k") 4).toOption.any
    (fun o => o.any (·.serverPath == some (cstr "/b/k"))) &&
  (askPath.host w).toOption.any (fun o => o.any fun h => (w.hosts[h]?).any fun host => (askPath.file host).isSome)

theorem toOption_any {ε α : Type} {r : Except ε (Option α)} {P : α → Bool}
    (h : r.toOption.any (fun o => o.any P) = true) : ∃ a, r = .ok (some a) ∧ P a = true := by
  obtain ⟨o, rfl, h⟩ := ok_of_any h
  cases o with
  | none => cases h
  | some a => exact ⟨a, rfl, h⟩

theorem bootForest_netboots : ∃ c w, mainInit bootEnv [.c (cstr "bootd.conf")] (bootForest.entries 0) freshWorld =
    .ok (c, w) ∧ netboots w = true := by
  have h : (mainInit bootEnv [.c (cstr "bootd.conf")] (bootForest.entries 0) freshWorld).toOption.any
      (fun r => netboots r.2) = true := by decide +kernel
  obtain ⟨r, hr, h⟩ := ok_of_any h
  exact ⟨r.1, r.2, hr, h⟩

/-- It gets `/b/k`. -/
theorem netboot_agrees_k : ∃ c w, mainInit bootEnv [.c (cstr "bootd.conf")] (bootForest.entries 0) freshWorld =
    .ok (c, w) ∧ ∃ q f, askPath.Requests w q f ∧ ∃ host, w.hosts[q]? = some host ∧ host.name = some (cstr "a") ∧
      (f.path = some (cstr "/b/k") ↔
        ∃ g ∈ host.files, g.path = some (cstr "/b/k") ∧ g.service &&& serviceTftp ≠ 0) := by
  obtain ⟨c, w, hstart, h⟩ := bootForest_netboots
  simp only [netboots, Bool.and_eq_true] at h
  obtain ⟨⟨⟨hrarp, hwhoami⟩, hgetfile⟩, hask⟩ := h
  obtain ⟨frame, hframe, htpa⟩ := (Option.any_eq_true _ _).mp hrarp
  obtain ⟨res, hres, hname⟩ := toOption_any hwhoami
  obtain ⟨file, hfile, hpath⟩ := toOption_any hgetfile
  obtain ⟨q, hq, hany⟩ := toOption_any hask
  obtain ⟨host, hhost, hsome⟩ := (Option.any_eq_true _ _).mp hany
  obtain ⟨f, hf⟩ := Option.isSome_iff_exists.mp hsome
  have hreq : askPath.Requests w q f := ⟨hq, host, hhost, hf⟩
  obtain ⟨L, -, h, q', host', -, -, hh', hn', rfl, -, -, hiff⟩ := netboot_agrees bootEnv _ _ freshWorld w c
    (entries_distinct 0 bootForest) freshWorld_fresh hstart ⟨w, []⟩ ⟨w, []⟩ ⟨w, []⟩ ⟨w, []⟩ [] [] [] [] (.nil _)
    (.nil _) (.nil _) (.nil _) plainOs linkPort _ frame (.ofBytes 10 0 0 2) hframe
    ((beq_iff_eq.mp htpa).trans (ipBytes_ofBytes 10 0 0 2).symm) 4 res (cstr "a") hres (beq_iff_eq.mp hname)
    (cstr "k") 4 file (cstr "/b/k") hfile (beq_iff_eq.mp hpath) plainOs port69 ⟨.ofBytes 10 0 0 2, 1024⟩ .any
    reqPath q f rfl reqPath_name hreq
  exact ⟨c, w, hstart, q, f, hreq, host', hh', hn', hiff⟩

end Bootd
