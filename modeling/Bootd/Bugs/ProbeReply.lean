import Bootd.Bugs.BootReply
import Bootd.L2State.BestMatch

/-!
# The reply to a probe is cut off

A probe with sequence number `q` asks for the `q`-th file that the host may load
over RMP, or for the server's name (`q = 0`). `rmp_handler` finds the right one for
every 32-bit `q`, and builds the right reply: 32 bytes of header, 3 of fields and the
name. It then sends `RMP_BOOT_REPL + flnm_size` bytes (src/rmp.c:113-118), where
`RMP_BOOT_REPL` is 21 and leaves out the 14 bytes of the Ethernet header: the last 14
bytes of the reply are missing. If what is left is under 62 bytes,
`i_listener_link_send` refuses it.

Counterexample: the probe for the first file of a host (`probe_unanswered`).

* `probe_enumerates`: what `q` stands for.
* `probe_cut`: no probe is answered with its whole reply, in every reachable state;
  what is handed to the send function is the reply without its last 14 bytes.
-/
namespace Bootd

open Bootd.Core Bootd.Core.Exec

/-- The sequence number of a request. -/
def Pkt.rmpSeqno (p : Pkt) : Nat := p.u16 26 * 65536 + p.u16 28

/-- The files that the host may load over RMP. -/
def rmpFiles (host : Host) : List File := host.files.filter fun f => f.service &&& serviceRmp ≠ 0

/-- The name and the return code that probe number `q` asks for. -/
def probeAnswer (l : Listener) (host : Host) (q : Nat) : Option (CStr × UInt8) :=
  if q = 0 then l.name.map (·, rmpEOkay)
  else
    match (rmpFiles host)[q - 1]? with
    | some f => f.name.map (·, rmpEOkay)
    | none => some ([], rmpENodflt)

/-- The frame is a boot reply with this name and code. -/
structure IsProbeReply (frame : List UInt8) (name : CStr) (code : UInt8) : Prop where
  type : frame[24]? = some rmpBootRepl
  code : frame[25]? = some code
  size : ∃ size, frame[34]? = some size ∧ size.toNat = name.length
  name : (frame.drop 35).take name.length = name

/-- The probe is answered with the name and the code it asks for. -/
def ProbeAnswered (l : Listener) (p : Pkt) (host : Host) (w' : World) : Prop :=
  ∃ frame name code, probeAnswer l host p.rmpSeqno = some (name, code) ∧ IsProbeReply frame name code ∧
    w'.sends = [.link l frame true]

/-- The reply that the handler builds. -/
def probeRepl (p : Pkt) (eth : Ether) (name : CStr) (code : UInt8) : List UInt8 :=
  rmpHeader p eth (rmpBootReplLen + name.length) rmpBootRepl code (be16 0) ++ be16 rmpVersion ++
    [UInt8.ofNat name.length] ++ name

section
variable {l : Listener} {p : Pkt} {host : Host} {fs : List File} {name name' : CStr} {code code' : UInt8}
  {eth : Ether}

/-! ## Which name -/

/-- Without a name, every allowed file matches, in the order of the list. -/
theorem filesByRank_none (fs : List File) (service : Nat) :
    filesByRank fs service none = fs.filter fun n => n.service &&& service ≠ 0 := by
  have hrank : ∀ n : File, iFileMatch n service none = if n.service &&& service = 0 then 0 else 1 := by
    intro n
    unfold iFileMatch
    split
    · rfl
    · rw [if_pos rfl]
  have hsame : (fun n : File => decide (iFileMatch n service none ≠ 0)) =
      fun n => decide (n.service &&& service ≠ 0) := by
    funext n
    rw [hrank]
    split <;> simp_all
  rw [filesByRank, hsame]
  refine List.mergeSort_of_pairwise (List.pairwise_of_forall_mem_list fun a ha b hb => ?_)
  have ha : a.service &&& service ≠ 0 := by simpa using (List.mem_filter.mp ha).2
  have hb : b.service &&& service ≠ 0 := by simpa using (List.mem_filter.mp hb).2
  simp [byKey, hrank, ha, hb]

/-- Below 0 the counter never gets to 0. -/
theorem fileScan_neg {service : Nat} {i : Nat} : ∀ {fs : List File} {no : Int}, no < 0 →
    ∃ no' < 0, fileScan service none i fs no = .inr no'
  | [], no, h => ⟨no, h, rfl⟩
  | n :: fs, no, h => by
    rw [fileScan]
    split
    · rw [if_pos h.ne]
      exact fileScan_neg (by omega)
    · exact fileScan_neg h

theorem fileRanks_neg {service : Nat} {is : List Nat} {no : Int} (h : no < 0) :
    fileRanks service none fs is no = none := by
  induction is generalizing no with
  | nil => rfl
  | cons i is ih =>
    obtain ⟨no', h', hscan⟩ : ∃ no' < 0, fileScan service none i fs no = .inr no' := fileScan_neg h
    rw [fileRanks, hscan]
    exact ih h'

theorem rmpSeqno_lt (p : Pkt) : p.rmpSeqno < 2 ^ 32 := by
  unfold Pkt.rmpSeqno Pkt.u16
  have h26 := (p.mem 26).toNat_lt
  have h27 := (p.mem (26 + 1)).toNat_lt
  have h28 := (p.mem 28).toNat_lt
  have h29 := (p.mem (28 + 1)).toNat_lt
  omega

/-- The file that probe number `q` asks for; beyond the last one, and for every number from
2^31 on, there is none. -/
theorem probe_file (fs : List File) {q : Nat} (hq : q ≠ 0) (hlt : q < 2 ^ 32)
    (hlen : (fs.filter fun f => f.service &&& serviceRmp ≠ 0).length < 2 ^ 31) :
    utilName2file fs serviceRmp none (int32 (int32 q - 1)) =
      (fs.filter fun f => f.service &&& serviceRmp ≠ 0)[q - 1]? := by
  have hnone : 2 ^ 31 ≤ q → (fs.filter fun f => f.service &&& serviceRmp ≠ 0)[q - 1]? = none := fun h =>
    List.getElem?_eq_none (by omega)
  rcases Nat.lt_trichotomy q (2 ^ 31) with h | h | h
  · have hq32 : int32 q = q := int32_of_fits (by omega) (by omega)
    have hpred : (q : Int) - 1 = ((q - 1 : Nat) : Int) := by omega
    rw [hq32, int32_of_fits (by omega) (by omega), hpred, utilName2file_eq, filesByRank_none]
  · -- the counter wraps round to 2^31 - 1
    have hwrap : int32 (int32 (2 ^ 31 : Nat) - 1) = (2 ^ 31 - 1 : Nat) := by decide
    rw [hnone h.ge, h, hwrap, utilName2file_eq, filesByRank_none, List.getElem?_eq_none (by omega)]
  · have hq32 : int32 q = q - 2 ^ 32 := int32_of_large (by omega) (by omega)
    rw [hnone h.le, hq32, int32_of_fits (by omega) (by omega)]
    exact fileRanks_neg (by omega)

/-- **What a sequence number stands for**: the server, one of the files, or nothing. -/
theorem probe_enumerates (l : Listener) (host : Host) (p : Pkt) (hlen : (rmpFiles host).length < 2 ^ 31) :
    (rmpProbeName l host p.rmpSeq).toOption = probeAnswer l host p.rmpSeqno := by
  have hseq : p.rmpSeq = int32 p.rmpSeqno := by
    unfold Pkt.rmpSeq Pkt.rmpSeqno
    push_cast
    rfl
  have hlt := rmpSeqno_lt p
  unfold rmpProbeName probeAnswer
  by_cases h0 : p.rmpSeqno = 0
  · have hzero : p.rmpSeq = 0 := by
      rw [hseq, h0]
      rfl
    rw [if_pos hzero, if_pos h0]
    cases l.name <;> rfl
  · have hne : p.rmpSeq ≠ 0 := by
      rw [hseq]
      rcases Nat.lt_or_ge p.rmpSeqno (2 ^ 31) with h | h
      · rw [int32_of_fits (by omega) (by omega)]
        omega
      · rw [int32_of_large (by omega) (by omega)]
        omega
    rw [if_neg hne, if_neg h0, hseq, probe_file host.files h0 hlt hlen]
    unfold rmpFiles
    cases (host.files.filter fun f => f.service &&& serviceRmp ≠ 0)[p.rmpSeqno - 1]? with
    | none => rfl
    | some f =>
      cases hn : f.name with
      | none =>
        simp only [hn]
        rfl
      | some n =>
        simp only [hn]
        rfl

/-- A host that may not use RMP is not answered. -/
theorem linkReply_denied {os : Os} {w : World} {t : HostId} (hrmp : (Ev.link os l p).isRmp = true)
    (ht : (Ev.link os l p).host w = .ok (some t)) (hh : w.hosts[t]? = some host)
    (hsvc : host.service &&& serviceRmp = 0) : linkReply os l p w = none := by
  have hne : p.u16 12 ≠ ethertypeRevarp := (of_decide_eq_true (Bool.and_eq_true_iff.mp hrmp).1).1
  unfold linkReply
  rw [if_neg hne, ht]
  simp only [hh, Option.bind_some, rmpReply, if_pos hsvc]

/-! ## Which reply -/

theorem probeRepl_length (p : Pkt) (eth : Ether) (name : CStr) (code : UInt8) :
    (probeRepl p eth name code).length = 35 + name.length := by
  simp only [probeRepl, List.length_append, be16_length, List.length_singleton,
    rmpHeader_length p eth _ _ _ _ (be16_length 0), rmpHeaderLen]

/-- What the handler builds is the reply asked for. -/
theorem probeRepl_is (p : Pkt) (eth : Ether) (code : UInt8) (hlen : name.length ≤ 255) :
    IsProbeReply (probeRepl p eth name code) name code := by
  have hhead := rmpHeader_length p eth (rmpBootReplLen + name.length) rmpBootRepl code (be16 0) (be16_length 0)
  rw [rmpHeaderLen] at hhead
  unfold probeRepl
  refine ⟨?_, ?_, ⟨UInt8.ofNat name.length, ?_, ?_⟩, ?_⟩
  · rw [List.append_assoc, List.append_assoc, List.getElem?_append_left (by omega), rmpHeader_type]
  · rw [List.append_assoc, List.append_assoc, List.getElem?_append_left (by omega), rmpHeader_retcode]
  · rw [List.append_assoc, List.append_assoc, List.getElem?_append_right (by omega), hhead]
    rfl
  · rw [UInt8.toNat_ofNat']
    omega
  · rw [List.drop_left' (by simp [hhead, be16_length]), List.take_length]

/-- The frame that is sent is the reply without its end. -/
theorem rmpBootReplFrame_cut (p : Pkt) (eth : Ether) (code : UInt8) (hlen : name.length ≤ 255) :
    rmpBootReplFrame p eth code name =
      (probeRepl p eth name code).take ((probeRepl p eth name code).length - 14) := by
  have hsize : (UInt8.ofNat name.length).toNat = name.length := by
    rw [UInt8.toNat_ofNat']
    omega
  have hlong : rmpBootReplLen + name.length ≤ (probeRepl p eth name code).length := by
    rw [probeRepl_length, rmpBootReplLen]
    omega
  have hfull : (probeRepl p eth name code).length - 14 = rmpBootReplLen + name.length := by
    rw [probeRepl_length, rmpBootReplLen]
    omega
  unfold rmpBootReplFrame
  simp only [hsize]
  rw [hfull]
  exact List.take_append_of_le_length hlong

/-- It is no reply at all: its size field promises a name that does not fit. -/
theorem rmpBootReplFrame_not (p : Pkt) (eth : Ether) :
    ¬IsProbeReply (rmpBootReplFrame p eth code' name') name code := by
  intro h
  have hlen := rmpBootReplFrame_length p eth code' name'
  obtain ⟨size, hsize, hname⟩ := h.size
  have hlong := (List.getElem?_eq_some_iff.mp hsize).1
  rw [hlen, rmpBootReplLen] at hlong
  have hfield := (rmpBootReplFrame_fields p eth code' name' (by omega)).2.2.1
  rw [hsize, Option.some_inj] at hfield
  rw [hfield, UInt8.toNat_ofNat'] at hname
  have hcut := congrArg List.length h.name
  rw [List.length_take, List.length_drop, hlen, rmpBootReplLen] at hcut
  omega

end

/-- **No probe is answered in full**, in any reachable state. What the send function is
handed is the reply without its last 14 bytes. -/
theorem probe_cut (c : Conf) (σ : Sys) (os : Os) (l : Listener) (p : Pkt) (t : HostId) (host : Host)
    (hr : (daemon c).Reachable σ) (hrmp : (Ev.link os l p).isRmp = true) (hop : p.rmpOp = .bootReq)
    (hver : p.rmpBootVersion = rmpVersion) (hsid : p.rmpSession = rmpProbesid)
    (ht : (Ev.link os l p).host σ.w = .ok (some t)) (hh : σ.w.hosts[t]? = some host) :
    ¬ProbeAnswered l p host (σ.next c (.link os l p)).w ∧
      ((rmpFiles host).length < 2 ^ 31 →
        (∀ name code, probeAnswer l host p.rmpSeqno = some (name, code) → name.length ≤ 255) →
        ∀ io ∈ (σ.next c (.link os l p)).w.sends, ∃ name code reply,
          probeAnswer l host p.rmpSeqno = some (name, code) ∧ IsProbeReply reply name code ∧
            io = frameIo l (reply.take (reply.length - 14))) := by
  have hreply : ∀ io ∈ (σ.next c (.link os l p)).w.sends, ∃ name code,
      rmpProbeName l host p.rmpSeq = .ok (name, code) ∧ io = frameIo l (rmpBootReplFrame p l.eth code name) := by
    intro io hio
    rcases next_sends hr os l p with ⟨-, heq⟩ | ⟨-, heq⟩
    swap
    · rw [heq] at hio; cases hio
    rw [heq] at hio
    by_cases hsvc : host.service &&& serviceRmp = 0
    · rw [linkReply_denied hrmp ht hh hsvc] at hio
      cases hio
    · rw [linkReply_boot hrmp hop hver ht hh hsvc, if_pos hsid] at hio
      cases hname : rmpProbeName l host p.rmpSeq with
      | error e => rw [hname] at hio; cases hio
      | ok r =>
        rw [hname] at hio
        exact ⟨r.1, r.2, rfl, List.mem_singleton.mp hio⟩
  constructor
  · rintro ⟨frame, name, code, -, hframe, hsends⟩
    obtain ⟨name', code', -, hio⟩ := hreply (.link l frame true) (by rw [hsends]; exact List.mem_singleton_self _)
    simp only [frameIo, Io.link.injEq] at hio
    obtain ⟨-, rfl, -⟩ := hio
    exact rmpBootReplFrame_not p l.eth hframe
  · intro hfew hshort io hio
    obtain ⟨name, code, hname, rfl⟩ := hreply io hio
    have hans : probeAnswer l host p.rmpSeqno = some (name, code) := by
      rw [← probe_enumerates l host p hfew, hname]
      rfl
    have hlen := hshort name code hans
    exact ⟨name, code, _, hans, probeRepl_is p l.eth code hlen, by rw [rmpBootReplFrame_cut p l.eth code hlen]⟩

/-! ## The first file of a host -/

/-- Host 0 asks for the name of its first file. -/
def probeFirst : Pkt :=
  .ofBytes (rmpAddr.octet.toList ++ (plainEther 1).octet.toList ++ be16 60 ++ [sapHp, sapHp] ++ be16 cntlHp ++
    be16 0 ++ be16 dxsapHp ++ be16 sxsapHp ++ [1, 0, 0, 0, 0, 1] ++ be16 rmpProbesid ++ be16 rmpVersion ++
    List.replicate 21 0x20)

/-- It is `k`, and that is what the reply would say. -/
theorem probe_cut_first : (∃ f, (rmpFiles (plainHost 1))[0]? = some f ∧ f.name = some (cstr "k")) ∧
    ¬ProbeAnswered linkPort probeFirst (plainHost 1) (bootSys.next plainConf (.link plainOs linkPort probeFirst)).w :=
  ⟨⟨plainFile, rfl, rfl⟩, (probe_cut plainConf bootSys plainOs linkPort probeFirst 0 (plainHost 1)
    bootSys_reachable (by decide) rfl rfl rfl (by decide) rfl).1⟩

/-- **Counterexample**: the reply with the name `k` is 22 bytes long and is refused. -/
theorem probe_unanswered : ¬∀ (c : Conf) (σ : Sys) (os : Os) (l : Listener) (p : Pkt) (t : HostId) (host : Host),
    (daemon c).Reachable σ → (Ev.link os l p).Enabled σ.w → (Ev.link os l p).isRmp = true →
    p.rmpOp = .bootReq → p.rmpBootVersion = rmpVersion → p.rmpSession = rmpProbesid →
    (Ev.link os l p).host σ.w = .ok (some t) → σ.w.hosts[t]? = some host → host.service &&& serviceRmp ≠ 0 →
    (∀ f ∈ rmpFiles host, ∃ name, f.name = some name ∧ name.length ≤ 255) →
    (∃ name, l.name = some name ∧ name.length ≤ 255) →
    ProbeAnswered l p host (σ.next c (.link os l p)).w := by
  intro h
  obtain ⟨frame, _, _, -, -, hsends⟩ := h plainConf bootSys plainOs linkPort probeFirst 0 (plainHost 1)
    bootSys_reachable ⟨List.mem_cons_of_mem _ List.mem_cons_self, rfl⟩ (by decide) rfl rfl rfl
      (by decide) rfl (by decide)
    (fun f hf => ⟨cstr "k", by cases List.mem_singleton.mp (List.mem_filter.mp hf).1; rfl, by decide⟩)
    ⟨cstr "boot", rfl, by decide⟩
  have hshort : (bootSys.next plainConf (.link plainOs linkPort probeFirst)).w.sends =
      [.link linkPort (rmpBootReplFrame probeFirst linkPort.eth rmpEOkay (cstr "k")) false] := rfl
  rw [hshort] at hsends
  simp at hsends

end Bootd
