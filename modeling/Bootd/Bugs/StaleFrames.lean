import Bootd.Bugs.ShortReplies
import Bootd.Bugs.StaleBytes

/-!
# Frames that end before the fields that the handlers read

Each link-level handler compares the length of the frame with that of a header
and looks at it no more: `rmp_handler` with 32 bytes (src/rmp.c:29-32),
`rarp_handler` with 22 (src/rarp.c:28-31). Behind them lie the machine type and
the file name of a boot request, whose length is a byte of the frame itself
(src/rmp.c:201-225), the size in a read request (src/rmp.c:173) and the target
hardware address (src/rarp.c:47). Where the frame ends earlier, they are what
the capture buffer holds next.

Counterexample: a RARP request of 32 bytes (`link_stale_bytes`).

`link_reacts_iff`: the frames on which each handler does the same whatever comes
behind them.
-/
namespace Bootd

open Bootd.Core Bootd.Core.Exec

/-- The RMP handler reacts only to the bytes of the frame. -/
def RmpReacts (bs : List UInt8) : Prop :=
  ∀ (c : Conf) (os : Os) (l : Listener) (w : World) (p q : Pkt), p.Holds bs → q.Holds bs →
    rmpHandler c os l p w = rmpHandler c os l q w

/-- So does the RARP handler. -/
def RarpReacts (bs : List UInt8) : Prop :=
  ∀ (os : Os) (l : Listener) (w : World) (p q : Pkt), p.Holds bs → q.Holds bs →
    rarpHandler os l p w = rarpHandler os l q w

/-- If the frame is an RMP packet at all: a boot request's machine type, and
unless it is a probe its file name, ends in it; a read request's size was
received, or its first byte asks for more than a reply takes, or the offset is
one that no read starts at. -/
def RmpSettled (bs : List UInt8) : Prop :=
  let p := Pkt.ofBytes bs
  p.isRmp p.rmpDaddr = true →
    match p.rmpOp with
    | .bootReq => Settled (fun b => b ≠ 0x20 ∧ b ≠ 0) bs 34 rmpMachlen ∧
        (p.rmpBootVersion = rmpVersion → p.rmpSession ≠ rmpProbesid →
          55 ≤ bs.length ∧ Settled (· ≠ 0) bs 55 (p.mem 54).toNat)
    | .readReq => 34 ≤ bs.length ∨ (33 ≤ bs.length ∧ rmpReadReplDatalen ≤ p.rmpReadSize) ∨ p.rmpSeq < 0
    | .bootDone | .other _ => True

/-- A frame that is a RARP packet reaches to the end of the target hardware
address. -/
def RarpSettled (bs : List UInt8) : Prop :=
  22 ≤ bs.length → (Pkt.ofBytes bs).isRarp = true → 38 ≤ bs.length

section
variable {c : Conf} {os : Os} {l : Listener} {w : World} {p q : Pkt} {bs : List UInt8} {host : Host}
  {f : Nat → UInt8}

/-! ## What was received of a header -/

theorem isRmp_congr (hp : p.Holds bs) (hq : q.Holds bs) (eth : Ether) : p.isRmp eth = q.isRmp eth := by
  unfold Pkt.isRmp
  rw [hp.len, hq.len]
  by_cases h : rmpHeaderLen ≤ bs.length
  · have h32 : 32 ≤ bs.length := h
    have hdaddr : p.rmpDaddr = q.rmpDaddr := hp.ether hq (by omega)
    have hdsap : p.rmpDsap = q.rmpDsap := hp.agree hq (by omega)
    have hcntl : p.rmpCntl = q.rmpCntl := hp.u16 hq (by omega)
    have hdxsap : p.rmpDxsap = q.rmpDxsap := hp.u16 hq (by omega)
    rw [hdaddr, hdsap, hcntl, hdxsap]
  · simp only [h, false_and]

/-- A frame for the listener is one that could be for some listener. -/
theorem isRmp_daddr {eth : Ether} (h : p.isRmp eth = true) : p.isRmp p.rmpDaddr = true := by
  unfold Pkt.isRmp at h ⊢
  rw [decide_eq_true_eq] at h ⊢
  exact ⟨h.1, .inr rfl, h.2.2⟩

theorem rmp_received (hp : p.Holds bs) {eth : Ether} (h : p.isRmp eth = true) : 32 ≤ bs.length := by
  unfold Pkt.isRmp at h
  exact hp.len ▸ (of_decide_eq_true h).1

/-- The fields of the header are the same in both buffers. -/
structure SameHeader (p q : Pkt) : Prop where
  saddr : p.rmpSaddr = q.rmpSaddr
  op : p.rmpOp = q.rmpOp
  seq : p.rmpSeq = q.rmpSeq
  session : p.rmpSession = q.rmpSession
  reply : rmpHeader p = rmpHeader q
  sid : p.bytes 30 2 = q.bytes 30 2

theorem Pkt.Holds.sameHeader (hp : p.Holds bs) (hq : q.Holds bs) (h : 32 ≤ bs.length) : SameHeader p q := by
  have hsaddr : p.rmpSaddr = q.rmpSaddr := hp.ether hq (by omega)
  refine ⟨hsaddr, congrArg RmpOp.ofByte (hp.agree hq (by omega)), ?_, hp.u16 hq (by omega), ?_,
    hp.bytes_eq hq (by omega)⟩
  · rw [Pkt.rmpSeq, Pkt.rmpSeq, hp.u16 hq (by omega), hp.u16 hq (by omega)]
  · funext eth len type retcode session
    rw [rmpHeader, rmpHeader, hsaddr, hp.bytes_eq hq (by omega)]

/-! ## RMP: what is enough -/

theorem SameHeader.probe (hs : SameHeader p q) : rmpProbe l p host = rmpProbe l q host := by
  unfold rmpProbe rmpBootReplFrame
  rw [hs.seq, hs.reply]

theorem rmpBoot_congr (h : HostId) (hname : p.rmpFilename = q.rmpFilename) :
    rmpBoot c os p h host = rmpBoot c os q h host := by
  unfold rmpBoot
  rw [rmpFile, rmpFile, hname]

theorem SameHeader.read (hs : SameHeader p q) (h : HostId)
    (hsize : min p.rmpReadSize rmpReadReplDatalen = min q.rmpReadSize rmpReadReplDatalen ∨ p.rmpSeq < 0) :
    rmpRead os l p h = rmpRead os l q h := by
  have hread : ∀ w fd, utilRead w os fd (min p.rmpReadSize rmpReadReplDatalen) p.rmpSeq =
      utilRead w os fd (min q.rmpReadSize rmpReadReplDatalen) q.rmpSeq := by
    intro w fd
    rcases hsize with hsize | hneg
    · rw [hsize, hs.seq]
    · rw [utilRead_neg hneg, utilRead_neg (hs.seq ▸ hneg)]
  unfold rmpRead rmpReadReplFrame
  simp only [hread, hs.session, hs.reply, hs.sid]

/-- The host is looked for under the source address, and the machine type. -/
theorem rmpHost_congr (c : Conf) (os : Os) (hh : SameHeader p q)
    (hmach : q.rmpOp = .bootReq → p.rmpMachtype = q.rmpMachtype) : rmpHost c os p = rmpHost c os q := by
  unfold rmpHost
  rw [hh.saddr, hh.op]
  by_cases hop : q.rmpOp = .bootReq
  · rw [hmach hop]
  · simp only [hop, if_false]

/-- A size that is large enough without its second byte. -/
theorem readSize_large (hp : p.Holds bs) (h33 : 33 ≤ bs.length)
    (hmax : rmpReadReplDatalen ≤ (Pkt.ofBytes bs).rmpReadSize) : rmpReadReplDatalen ≤ p.rmpReadSize := by
  have hz := Pkt.ofBytes_holds bs
  rw [Pkt.rmpReadSize, Pkt.u16, hp.agree hz (i := 32) (by omega)]
  by_cases h34 : 34 ≤ bs.length
  · rw [hp.agree hz (by omega)]
    exact hmax
  · rw [Pkt.rmpReadSize, Pkt.u16, Pkt.ofBytes_eq_over, Pkt.over_mem (i := 33) (by omega),
      ← Pkt.ofBytes_eq_over] at hmax
    exact hmax.trans (Nat.add_le_add_left (Nat.zero_le _) _)

theorem rmpDispatch_congr (c : Conf) (os : Os) (l : Listener) (hp : p.Holds bs) (hq : q.Holds bs)
    (hs : RmpSettled bs) (hrmp : q.isRmp l.eth = true) (h : HostId) (host : Host) :
    rmpDispatch c os l p h host = rmpDispatch c os l q h host := by
  have hz := Pkt.ofBytes_holds bs
  have h32 : 32 ≤ bs.length := rmp_received hq hrmp
  have hh : SameHeader p q := hp.sameHeader hq h32
  have hhz : SameHeader q (.ofBytes bs) := hq.sameHeader hz h32
  have hsettled := hs (isRmp_daddr (isRmp_congr hq hz l.eth ▸ hrmp))
  rw [← hhz.op] at hsettled
  unfold rmpDispatch
  rw [hh.op]
  cases hop : q.rmpOp with
  | bootReq =>
    rw [hop] at hsettled
    obtain ⟨hmach, hname⟩ := hsettled
    have h35 : 35 ≤ bs.length := hmach.pos (by decide)
    have hver : ∀ r : Pkt, r.Holds bs → r.rmpBootVersion = (Pkt.ofBytes bs).rmpBootVersion :=
      fun r hr => hr.u16 hz (by omega)
    simp only [hver p hp, hver q hq, hh.session]
    split
    · rfl
    · split
      · exact hh.probe
      · rename_i hversion hsid
        obtain ⟨h55, hend⟩ := hname (not_not.mp hversion) (hhz.session ▸ hsid)
        refine rmpBoot_congr h ?_
        rw [Pkt.rmpFilename, Pkt.rmpFilename, hp.agree hz (i := 54) (by omega),
          hq.agree hz (i := 54) (by omega)]
        exact hp.takeWhile hq hend
  | readReq =>
    rw [hop] at hsettled
    refine hh.read h ?_
    rcases hsettled with h34 | ⟨h33, hmax⟩ | hneg
    · rw [Pkt.rmpReadSize, Pkt.rmpReadSize, hp.u16 hq h34]
      exact .inl rfl
    · rw [min_eq_right (readSize_large hp h33 hmax), min_eq_right (readSize_large hq h33 hmax)]
      exact .inl rfl
    · exact .inr ((hh.seq.trans hhz.seq).trans_lt hneg)
  | bootDone => rfl
  | other n => rfl

theorem rmp_reacts (hs : RmpSettled bs) : RmpReacts bs := by
  intro c os l w p q hp hq
  have hz := Pkt.ofBytes_holds bs
  unfold rmpHandler
  rw [isRmp_congr hp hq l.eth]
  by_cases hrmp : q.isRmp l.eth = true
  swap
  · rw [if_neg hrmp, if_neg hrmp]
  rw [if_pos hrmp, if_pos hrmp]
  have h32 : 32 ≤ bs.length := rmp_received hq hrmp
  have hmach : q.rmpOp = .bootReq → p.rmpMachtype = q.rmpMachtype := by
    intro hop
    have hsettled := hs (isRmp_daddr (isRmp_congr hq hz l.eth ▸ hrmp))
    rw [← (hq.sameHeader hz h32).op, hop] at hsettled
    exact hp.takeWhile hq hsettled.1
  rw [rmpHost_congr c os (hp.sameHeader hq h32) hmach]
  simp only [rmpDispatch_congr c os l hp hq hs hrmp]

/-! ## RMP: what is needed -/

/-- The daemon with that host alone in its table. -/
def alone (host : Host) : World := { served with hosts := [host], gHosts := some 0 }

/-- The link level listener at that address. -/
def portAt (eth : Ether) : Listener := { linkPort with eth := eth }

theorem alone_path (hw : w.hosts = [host] ∧ w.gHosts = some 0) (hn : host.next = none) :
    Chain.Path w.next w.gHosts [0] none := by
  refine ⟨hw.2, none, ?_, rfl⟩
  rw [World.next, hw.1, ← hn]
  rfl

theorem alone_find {test : Host → Except Fault Bool} {b : Bool} (hw : w.hosts = [host] ∧ w.gHosts = some 0)
    (hn : host.next = none) (ht : test host = .ok b) :
    hostFind w test = .ok (if b then some 0 else none) := by
  have hpath := alone_path hw hn
  have htest : ∀ a ∈ [0], ∀ h, w.hosts[a]? = some h → test h = .ok ((fun _ : HostId => b) a) := by
    intro a ha h hh
    rw [List.mem_singleton.mp ha, hw.1] at hh
    cases hh
    exact ht
  exact (hostFind_table hpath htest).trans (by cases b <;> rfl)

theorem exists_other (eth : Ether) : ∃ eth', eth' ≠ eth := by
  by_cases h : plainEther 1 = eth
  · exact ⟨plainEther 2, h ▸ by decide⟩
  · exact ⟨_, h⟩

/-- A boot request of an unknown machine whose type names no host. -/
theorem rmpHandler_unknown (hrmp : p.isRmp l.eth = true) (hop : p.rmpOp = .bootReq)
    (hk : utilEther2host w p.rmpSaddr = .ok none) (hn : utilName2host w p.rmpMachtype = .ok none) :
    rmpHandler c os l p w = .ok () w := by
  unfold rmpHandler rmpHost
  rw [if_pos hrmp, bind_assoc, get_run, bind_assoc, hk, liftE_ok, pure_bind]
  simp only [hop, if_true]
  rw [bind_assoc, get_run, bind_assoc, hn, liftE_ok, pure_bind]
  rfl

/-- A clone is a host more. -/
theorem rmpHandler_cloned {L : List HostId} {t : HostId} (hL : Chain.Lasso w.next w.gHosts L)
    (hrmp : p.isRmp l.eth = true) (hk : utilEther2host w p.rmpSaddr = .ok none)
    (hop : p.rmpOp = .bootReq) (hn : utilName2host w p.rmpMachtype = .ok (some t))
    (hh : w.hosts[t]? = some host) (hsvc : host.service = 4) : rmpHandler c os l p w ≠ .ok () w := by
  intro hr
  rcases rmpHandler_ok hr with ⟨hno, -⟩ | ⟨-, o, w₁, hhost, hcase⟩
  · rw [hrmp] at hno; cases hno
  cases hhost with
  | known h hk' => rw [hk] at hk'; cases hk'
  | unknown _ hn' => rw [hn] at hn'; cases hn' hop
  | cloned t' tmpl h b _ _ _ ht htm hadd =>
    rw [hn] at ht; cases ht
    rw [hh] at htm; cases htm
    obtain ⟨h', complete, hc, rfl, hnew, hf, -⟩ := hostAddNew_ok hL hadd
    rcases hcase with ⟨ho, -⟩ | ⟨_, g, ho, hg, hcase⟩
    · cases ho
    cases ho
    rw [hnew] at hg; cases hg
    have hsvc' : h'.service = 4 := ((hostComplete_ok hc).2.2.2.2 (by simp [cloneOf, hsvc])).1.trans hsvc
    rcases hcase with ⟨-, hsame⟩ | ⟨hne, -⟩
    · have hlen := hf.length
      rw [← hsame] at hlen
      omega
    · rw [hsvc'] at hne
      exact hne rfl

/-- A machine type without an end is a name of other hosts in another buffer. -/
theorem rmp_no_machtype (hrmp : (Pkt.ofBytes bs).isRmp (Pkt.ofBytes bs).rmpDaddr = true)
    (hop : (Pkt.ofBytes bs).rmpOp = .bootReq)
    (hs : ¬Settled (fun b => b ≠ 0x20 ∧ b ≠ 0) bs 34 rmpMachlen) : ¬RmpReacts bs := by
  intro hreacts
  have hp := Pkt.ofBytes_holds bs
  have hq := Pkt.over_holds (fun _ => 97) bs
  have hh := hp.sameHeader hq (rmp_received hp hrmp)
  have hpname : (Pkt.ofBytes bs).rmpMachtype = received bs 34 rmpMachlen := by
    obtain ⟨k, -, -, heq⟩ := over_unsettled (b := 0) (f := fun _ => 0) (by decide) hs fun _ _ _ => rfl
    rw [Pkt.rmpMachtype, Pkt.ofBytes_eq_over, heq]
    simp
  obtain ⟨k, hk, hqname⟩ : ∃ k, 0 < k ∧ (Pkt.over (fun _ => 97) bs).rmpMachtype =
      received bs 34 rmpMachlen ++ List.replicate k 97 := by
    obtain ⟨k, hk, -, heq⟩ := over_unsettled (b := 97) (f := fun _ => 97) (by decide) hs fun _ _ _ => rfl
    exact ⟨k, hk, heq⟩
  obtain ⟨eth, heth⟩ := exists_other (Pkt.ofBytes bs).rmpSaddr
  let host : Host := { plainHost 1 with name := some (Pkt.ofBytes bs).rmpMachtype, eth := eth, service := 4 }
  let l := portAt (Pkt.ofBytes bs).rmpDaddr
  have hnone : utilEther2host (alone host) (Pkt.ofBytes bs).rmpSaddr = .ok none :=
    alone_find (b := false) ⟨rfl, rfl⟩ rfl (congrArg Except.ok (beq_eq_false_iff_ne.mpr heth))
  have hother : utilName2host (alone host) (Pkt.over (fun _ => 97) bs).rmpMachtype = .ok none := by
    refine alone_find (b := false) ⟨rfl, rfl⟩ rfl (congrArg Except.ok (Bool.eq_false_iff.mpr fun hc => ?_))
    have hlen := congrArg List.length (strcasecmp_iff.mp hc)
    rw [hqname, hpname] at hlen
    simp only [List.length_map, List.length_append, List.length_replicate] at hlen
    omega
  have hfound : utilName2host (alone host) (Pkt.ofBytes bs).rmpMachtype = .ok (some 0) :=
    alone_find (b := true) ⟨rfl, rfl⟩ rfl (congrArg Except.ok (strcasecmp_iff.mpr rfl))
  have hsame := hreacts plainConf plainOs l (alone host) _ _ hp hq
  rw [rmpHandler_unknown (p := .over (fun _ => 97) bs) (isRmp_congr hp hq l.eth ▸ hrmp) (hh.op ▸ hop)
    (hh.saddr ▸ hnone) hother] at hsame
  exact rmpHandler_cloned (.of_path (alone_path ⟨rfl, rfl⟩ rfl)) hrmp hnone hop hfound rfl rfl hsame

/-- A file name without an end is a longer one in another buffer. -/
theorem filename_over (hs : ¬(55 ≤ bs.length ∧ Settled (· ≠ 0) bs 55 ((Pkt.ofBytes bs).mem 54).toNat)) :
    ∃ k, 0 < k ∧ (Pkt.over (fun _ => 97) bs).rmpFilename =
      (Pkt.ofBytes bs).rmpFilename ++ List.replicate k 97 := by
  have hgoes : ∀ n, 0 < n → ¬Settled (· ≠ 0) bs 55 n → ∃ k, 0 < k ∧
      ((Pkt.over (fun _ => 97) bs).bytes 55 n).takeWhile (· ≠ 0) =
        received bs 55 n ++ List.replicate k 97 := by
    intro n hn hs
    obtain ⟨k, hk, -, heq⟩ := over_unsettled (b := 97) (f := fun _ => 97) hn hs fun _ _ _ => rfl
    exact ⟨k, hk, heq⟩
  by_cases hlen : 55 ≤ bs.length
  · have hs : ¬Settled (· ≠ 0) bs 55 ((Pkt.ofBytes bs).mem 54).toNat := fun h => hs ⟨hlen, h⟩
    have hn : 0 < ((Pkt.ofBytes bs).mem 54).toNat := Nat.pos_of_ne_zero fun h0 => hs (.inl (by omega))
    have hsize : (Pkt.over (fun _ => 97) bs).mem 54 = (Pkt.ofBytes bs).mem 54 :=
      (Pkt.over_holds _ bs).agree (Pkt.ofBytes_holds bs) (by omega)
    have hz : (Pkt.ofBytes bs).rmpFilename = received bs 55 ((Pkt.ofBytes bs).mem 54).toNat := by
      obtain ⟨k, -, -, heq⟩ := over_unsettled (b := 0) (f := fun _ => 0) hn hs fun _ _ _ => rfl
      rw [Pkt.rmpFilename, Pkt.ofBytes_eq_over] at *
      rw [heq]
      simp
    rw [hz, Pkt.rmpFilename, hsize]
    exact hgoes _ hn hs
  · have hz : (Pkt.ofBytes bs).rmpFilename = received bs 55 97 := by
      have hsize : (Pkt.ofBytes bs).mem 54 = 0 := by
        rw [Pkt.ofBytes_eq_over, Pkt.over_mem (by omega)]
      rw [Pkt.rmpFilename, hsize, received, List.drop_eq_nil_of_le (by omega)]
      rfl
    have hsize : (Pkt.over (fun _ => 97) bs).mem 54 = 97 := Pkt.over_mem (by omega)
    rw [hz, Pkt.rmpFilename, hsize]
    exact hgoes 97 (by decide) fun h => hlen (Nat.le_trans (by omega) (h.pos (by decide)))

/-- A file of that name. -/
def fileNamed (name : CStr) : File := { plainFile with path := some name, name := some name }

theorem rmpFile_named {host : Host} {name : CStr} (hfiles : host.files = [fileNamed name])
    (hname : p.rmpFilename = name) : rmpFile host p = some (fileNamed name) := by
  have hmatch : iFileMatch (fileNamed name) serviceRmp (some name) = 1 := by
    simp [iFileMatch, fileNamed, plainFile, serviceAll, serviceRmp, strIsEqual]
  rw [rmpFile, hfiles, hname, utilName2file, fileRanks, fileScan, if_pos hmatch]
  rfl

theorem rmpFile_unnamed {host : Host} {name : CStr} (hfiles : host.files = [fileNamed name])
    (hne : name ≠ p.rmpFilename) (hwild : name ≠ wildcard) : rmpFile host p = none := by
  cases hf : rmpFile host p with
  | none => rfl
  | some g =>
    obtain ⟨hm, -, hans⟩ := utilName2file_some hf
    rw [hfiles] at hm
    obtain rfl := List.mem_singleton.mp hm
    simp [File.AnswersTo, fileNamed, plainFile, hne, hwild] at hans

/-- A host at that address, with that file. -/
def hostFor (eth : Ether) (name : CStr) : Host :=
  { plainHost 1 with eth := eth, files := [fileNamed name] }

/-- A boot request for a file that its host has, on a daemon without sessions. -/
theorem rmpBoot_runs (eth : Ether) {name : CStr} (hname : p.rmpFilename = name) :
    Returns (rmpBoot plainConf plainOs p 0 (hostFor eth name)) (alone (hostFor eth name)) := by
  have hfile : rmpFile (hostFor eth name) p = some (fileNamed name) := rmpFile_named rfl hname
  rw [rmpBoot, hfile]
  exact ⟨(), _, rfl⟩

theorem rmp_no_filename (hrmp : (Pkt.ofBytes bs).isRmp (Pkt.ofBytes bs).rmpDaddr = true)
    (hop : (Pkt.ofBytes bs).rmpOp = .bootReq)
    (hmach : Settled (fun b => b ≠ 0x20 ∧ b ≠ 0) bs 34 rmpMachlen)
    (hver : (Pkt.ofBytes bs).rmpBootVersion = rmpVersion)
    (hsid : (Pkt.ofBytes bs).rmpSession ≠ rmpProbesid)
    (hs : ¬(55 ≤ bs.length ∧ Settled (· ≠ 0) bs 55 ((Pkt.ofBytes bs).mem 54).toNat)) :
    ¬RmpReacts bs := by
  intro hreacts
  have hp := Pkt.ofBytes_holds bs
  have hq := Pkt.over_holds (fun _ => 97) bs
  have hh := hp.sameHeader hq (rmp_received hp hrmp)
  obtain ⟨k, hk, hname⟩ := filename_over hs
  obtain ⟨name, hfull⟩ : ∃ name, (Pkt.over (fun _ => 97) bs).rmpFilename = name := ⟨_, rfl⟩
  rw [hname] at hfull
  have hne : name ≠ (Pkt.ofBytes bs).rmpFilename := by
    intro h
    have hlen := congrArg List.length (hfull.trans h)
    rw [List.length_append, List.length_replicate] at hlen
    omega
  have hwild : name ≠ wildcard := by
    intro h
    have hmem : (97 : UInt8) ∈ name :=
      hfull ▸ List.mem_append_right _ (List.mem_replicate.mpr ⟨by omega, rfl⟩)
    rw [h] at hmem
    exact absurd hmem (by decide)
  let host := hostFor (Pkt.ofBytes bs).rmpSaddr name
  let l := portAt (Pkt.ofBytes bs).rmpDaddr
  have hfound : utilEther2host (alone host) (Pkt.ofBytes bs).rmpSaddr = .ok (some 0) :=
    alone_find (b := true) ⟨rfl, rfl⟩ rfl (congrArg Except.ok (beq_iff_eq.mpr rfl))
  have hh0 : (alone host).hosts[0]? = some host := rfl
  have hsvc : host.service &&& serviceRmp ≠ 0 := show serviceAll &&& serviceRmp ≠ 0 by decide
  have hver' : (Pkt.over (fun _ => 97) bs).rmpBootVersion = rmpVersion := by
    have h35 : 35 ≤ bs.length := hmach.pos (by decide)
    rw [← hver]
    exact hq.u16 hp (by omega)
  have hsame := hreacts plainConf plainOs l (alone host) _ _ hp hq
  rw [rmpHandler_run _ _ (l := l) hrmp hfound hh0 hsvc,
    rmpHandler_run _ _ (l := l) (isRmp_congr hp hq l.eth ▸ hrmp) (hh.saddr ▸ hfound) hh0 hsvc,
    rmpDispatch, rmpDispatch, ← hh.op, hop] at hsame
  simp only [hver, hver', ← hh.session, hsid, if_false, not_true_eq_false, ne_eq] at hsame
  obtain ⟨_, w', hret⟩ := rmpBoot_runs (Pkt.ofBytes bs).rmpSaddr (hname.trans hfull)
  rw [rmpBoot, rmpFile_unnamed rfl hne hwild] at hsame
  cases hsame.trans hret

/-- The host of the packet is in its session, with a file that a whole reply can
be read from. -/
def readable (p : Pkt) : World :=
  { alone { plainHost 1 with eth := p.rmpSaddr, session := some 0 } with
    sessions := [some ⟨serviceRmp, 0, p.rmpSession, bfFds 5, none⟩]
    gNSessions := 1
    fds := served.fds ++ [some (.file none (List.replicate (p.rmpSeq.toNat + rmpReadReplDatalen) 0))] }

/-- A read request gets as many bytes as it asks for, and a reply takes. -/
theorem readable_reply (hrmp : p.isRmp l.eth = true) (hop : p.rmpOp = .readReq) (hseq : 0 ≤ p.rmpSeq)
    (hh : SameHeader q p) : ∃ w' frame, rmpHandler plainConf plainOs l p (readable q) = .ok () w' ∧
      w'.sends = [frameIo l frame] ∧ frame.length = 18 + min p.rmpReadSize rmpReadReplDatalen := by
  have hfound : utilEther2host (readable q) p.rmpSaddr = .ok (some 0) :=
    alone_find (b := true) ⟨rfl, rfl⟩ rfl (congrArg Except.ok (beq_iff_eq.mpr hh.saddr))
  have hs : (readable q).sessionOf 0 = some 0 := rfl
  obtain ⟨ses, hl, hsvc, hsid, hfd⟩ : ∃ ses, (readable q).live 0 = some ses ∧ ses.service = serviceRmp ∧
      ses.sid = q.rmpSession ∧ ses.bfFd = 5 := ⟨_, rfl, rfl, rfl, rfl⟩
  have hfile : ((readable q).fdObj 5).bind FdObj.content =
      some (List.replicate (q.rmpSeq.toNat + rmpReadReplDatalen) 0) := rfl
  have hown : (readable q).OwnLive 0 := by
    intro s hs'
    rw [hs] at hs'; cases hs'
    exact ⟨ses, hl⟩
  have hret : Returns (rmpRead plainOs l p 0) (readable q) := (rmpRead_returns Nat.zero_lt_one).mpr hown
  obtain ⟨_, w', hr⟩ := hret
  obtain ⟨data, hdata, hreply⟩ := rmpReadReply_session (p := p) plainOs l hs hl hsvc
    (hsid.trans (congrArg _ hh.session))
  have hread : utilRead (readable q) plainOs 5 (min p.rmpReadSize rmpReadReplDatalen) p.rmpSeq =
      some (((List.replicate (q.rmpSeq.toNat + rmpReadReplDatalen) 0).drop p.rmpSeq.toNat).take
        (min (min p.rmpReadSize rmpReadReplDatalen) 4096)) :=
    utilRead_iff.mpr ⟨_, 4096, hfile, rfl, rfl, hseq, rfl⟩
  rw [hfd, hread] at hdata
  refine ⟨w', _, ?_, rmpRead_sends hr, ?_⟩
  · rw [rmpHandler_run _ _ hrmp hfound rfl (show serviceAll &&& serviceRmp ≠ 0 by decide), rmpDispatch, hop]
    exact hr
  · rw [hreply, rmpReadReplFrame_length, hdata]
    simp only [Option.map_some, Option.getD_some, List.length_take, List.length_drop,
      List.length_replicate, hh.seq]
    have hmin := Nat.min_le_right p.rmpReadSize rmpReadReplDatalen
    unfold rmpReadReplDatalen rmpReadReplLen at *
    omega

/-- Without all of its size, a read request asks for as many bytes as the
buffer says. -/
theorem rmp_no_size (hrmp : (Pkt.ofBytes bs).isRmp (Pkt.ofBytes bs).rmpDaddr = true)
    (hop : (Pkt.ofBytes bs).rmpOp = .readReq) (hlen : bs.length < 34) (hseq : 0 ≤ (Pkt.ofBytes bs).rmpSeq)
    (hsize : 33 ≤ bs.length → (Pkt.ofBytes bs).rmpReadSize < rmpReadReplDatalen) : ¬RmpReacts bs := by
  intro hreacts
  have hp := Pkt.ofBytes_holds bs
  have hq := Pkt.over_holds (fun i => if i = 33 then 1 else 0) bs
  have h32 : 32 ≤ bs.length := rmp_received hp hrmp
  have hh := hp.sameHeader hq h32
  have hhigh : (Pkt.over (fun i => if i = 33 then 1 else 0) bs).mem 32 = (Pkt.ofBytes bs).mem 32 := by
    by_cases h : 33 ≤ bs.length
    · exact hq.agree hp (by omega)
    · rw [Pkt.ofBytes_eq_over, Pkt.over_mem (by omega), Pkt.over_mem (by omega), if_neg (by omega)]
  have hpsize : (Pkt.ofBytes bs).rmpReadSize = ((Pkt.ofBytes bs).mem 32).toNat * 256 := by
    have hlow : (Pkt.ofBytes bs).mem 33 = 0 := by rw [Pkt.ofBytes_eq_over, Pkt.over_mem (by omega)]
    rw [Pkt.rmpReadSize, Pkt.u16, hlow, UInt8.toNat_zero, Nat.add_zero]
  have hqsize : (Pkt.over (fun i => if i = 33 then 1 else 0) bs).rmpReadSize =
      ((Pkt.ofBytes bs).mem 32).toNat * 256 + 1 := by
    rw [Pkt.rmpReadSize, Pkt.u16, hhigh, Pkt.over_mem (i := 33) (by omega), if_pos rfl, UInt8.toNat_one]
  have hsmall : (Pkt.ofBytes bs).rmpReadSize < rmpReadReplDatalen := by
    by_cases h : 33 ≤ bs.length
    · exact hsize h
    · rw [hpsize, Pkt.ofBytes_eq_over, Pkt.over_mem (by omega)]
      decide
  let l := portAt (Pkt.ofBytes bs).rmpDaddr
  obtain ⟨w₁, frame₁, hr₁, hs₁, hlen₁⟩ := readable_reply (l := l) hrmp hop hseq (hp.sameHeader hp h32)
  obtain ⟨w₂, frame₂, hr₂, hs₂, hlen₂⟩ := readable_reply (l := l) (isRmp_congr hp hq l.eth ▸ hrmp)
    (hh.op ▸ hop) (hh.seq ▸ hseq) hh
  have hsame := hr₁.symm.trans ((hreacts plainConf plainOs l _ _ _ hp hq).trans hr₂)
  obtain ⟨-, rfl⟩ := EStateM.Result.ok.inj hsame
  have hframes : frameIo l frame₁ = frameIo l frame₂ := List.singleton_inj.mp (hs₁.symm.trans hs₂)
  simp only [frameIo, Io.link.injEq] at hframes
  rw [hframes.2.1, hlen₂, hqsize, hpsize] at hlen₁
  rw [hpsize] at hsmall
  unfold rmpReadReplDatalen rmpReadReplLen at *
  omega

theorem rmp_reacts_iff : RmpReacts bs ↔ RmpSettled bs := by
  refine ⟨fun hreacts hrmp => ?_, rmp_reacts⟩
  cases hop : (Pkt.ofBytes bs).rmpOp with
  | bootReq =>
    by_cases hmach : Settled (fun b => b ≠ 0x20 ∧ b ≠ 0) bs 34 rmpMachlen
    · refine ⟨hmach, fun hver hsid => ?_⟩
      by_contra hs
      exact rmp_no_filename hrmp hop hmach hver hsid hs hreacts
    · exact absurd hreacts (rmp_no_machtype hrmp hop hmach)
  | readReq =>
    by_contra hs
    obtain ⟨hlen, hs⟩ := not_or.mp hs
    obtain ⟨hsize, hseq⟩ := not_or.mp hs
    exact rmp_no_size hrmp hop (by omega) (by omega) (fun h => not_le.mp fun hle => hsize ⟨h, hle⟩) hreacts
  | bootDone => trivial
  | other n => trivial

/-! ## RARP -/

theorem isRarp_congr (hp : p.Holds bs) (hq : q.Holds bs) (h : 22 ≤ bs.length) : p.isRarp = q.isRarp := by
  unfold Pkt.isRarp
  rw [hp.u16 hq (o := 12) (by omega), hp.u16 hq (o := 14) (by omega), hp.u16 hq (o := 16) (by omega),
    hp.agree hq (i := 18) (by omega), hp.agree hq (i := 19) (by omega)]

theorem rarp_reacts (hs : RarpSettled bs) : RarpReacts bs := by
  intro os l w p q hp hq
  unfold rarpHandler
  rw [hp.len, hq.len]
  by_cases h22 : 22 ≤ bs.length
  swap
  · rw [if_neg fun h => h22 h.1, if_neg fun h => h22 h.1]
  rw [isRarp_congr hp hq h22]
  by_cases hrarp : q.isRarp = true
  swap
  · rw [if_neg fun h => hrarp h.2, if_neg fun h => hrarp h.2]
  have h38 : 38 ≤ bs.length := hs h22 (isRarp_congr hq (Pkt.ofBytes_holds bs) h22 ▸ hrarp)
  have htha : p.rarpTha = q.rarpTha := hp.ether hq h38
  have hop : p.rarpOp = q.rarpOp := hp.u16 hq (by omega)
  have hframe : rarpReplFrame p = rarpReplFrame q := by
    funext eth lip hip stack
    rw [rarpReplFrame, rarpReplFrame, htha, hp.ether hq (by omega)]
  simp only [htha, hop, hframe]

/-- A chain that leads back is searched without end for one address, and not for
the other. -/
theorem rarp_no_address (h22 : 22 ≤ bs.length) (hrarp : (Pkt.ofBytes bs).isRarp = true)
    (hlen : bs.length < 38) : ¬RarpReacts bs := by
  intro hreacts
  have hp := Pkt.ofBytes_holds bs
  have hq := Pkt.over_holds (fun _ => 97) bs
  have hne : (Pkt.over (fun _ => 97) bs).rarpTha ≠ (Pkt.ofBytes bs).rarpTha := by
    intro h
    have hlast := congrArg (fun e : Ether => e.octet[5]) h
    simp only [Pkt.rarpTha, Pkt.ether, Vector.getElem_ofFn] at hlast
    rw [Pkt.ofBytes_eq_over, Pkt.over_mem (by omega), Pkt.over_mem (by omega)] at hlast
    exact absurd hlast (by decide)
  let w := looped (Pkt.ofBytes bs).rarpTha
  have hfound : utilEther2host w (Pkt.ofBytes bs).rarpTha = .ok (some 0) :=
    (looped_ether _ _).trans (if_pos rfl)
  have hhang : utilEther2host w (Pkt.over (fun _ => 97) bs).rarpTha = .error .hang :=
    (looped_ether _ _).trans (if_neg (Ne.symm hne))
  have hreturns : Returns (rarpHandler plainOs linkPort (.ofBytes bs)) w := rarp_returns h22 hrarp hfound rfl
  obtain ⟨_, w', hret⟩ := hreturns
  have hsame := hreacts plainOs linkPort w _ _ hp hq
  rw [hret, rarpHandler, if_pos ⟨h22, isRarp_congr hp hq h22 ▸ hrarp⟩, get_run, hhang] at hsame
  cases hsame

theorem rarp_reacts_iff : RarpReacts bs ↔ RarpSettled bs := by
  refine ⟨fun hreacts h22 hrarp => ?_, rarp_reacts⟩
  by_contra hlen
  exact rarp_no_address h22 hrarp (by omega) hreacts

end

/-- **On which frames the handlers react only to the bytes captured.** -/
theorem link_reacts_iff (bs : List UInt8) :
    (RmpReacts bs ↔ RmpSettled bs) ∧ (RarpReacts bs ↔ RarpSettled bs) :=
  ⟨rmp_reacts_iff, rarp_reacts_iff⟩

/-- A RARP request that ends before the target hardware address. -/
def shortRarp : List UInt8 :=
  List.replicate 12 0 ++ be16 ethertypeRevarp ++ be16 1 ++ be16 ethertypeIp ++ [6, 4] ++
    be16 arpopRevrequest ++ List.replicate 10 0

/-- The buffer in which it is followed by the address of host 0. -/
def shortRarpStale : Pkt := .over (fun i => (plainEther 1).octet.toList.getD (i - 32) 0) shortRarp

set_option maxRecDepth 4000 in
/-- **Counterexample**: a RARP request of 32 bytes is answered if the address of
host 0 lies behind it, and not if zeros do. -/
theorem link_stale_bytes : ¬ ∀ bs : List UInt8, RmpReacts bs ∧ RarpReacts bs := by
  intro h
  have hsame := (h shortRarp).2 plainOs linkPort served (.ofBytes shortRarp) shortRarpStale
    (Pkt.ofBytes_holds _) (Pkt.over_holds _ _)
  obtain ⟨w, hquiet, hnone⟩ : ∃ w, rarpHandler plainOs linkPort (.ofBytes shortRarp) served = .ok () w ∧
      w.out = [] := ⟨_, rfl, rfl⟩
  obtain ⟨w', hreply, hsent⟩ : ∃ w', rarpHandler plainOs linkPort shortRarpStale served = .ok () w' ∧
      w'.out.length = 2 := ⟨_, rfl, rfl⟩
  obtain ⟨-, rfl⟩ := EStateM.Result.ok.inj (hquiet.symm.trans (hsame.trans hreply))
  rw [hnone] at hsent
  cases hsent

end Bootd
