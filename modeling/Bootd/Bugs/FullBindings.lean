import Bootd.Config.Eval
import Bootd.Config.Start

/-!
# A service with 16 bindings

The loops of `service_start` end at an empty slot only (src/service.c:259, 304, 318).
All 16 slots of a service can be in use, and then the loop reads what stands behind the
array: for a link service the pointer `filter`, which is taken for a device's name and
ends the daemon as `unknown device`; for the others `defport` or `prognum`, which is
taken for a 17th address.

Apart from that, the listener of an address has no name, and `listener_add` writes
through that NULL pointer (src/listener.c:307).

Counterexample: a device that is given 16 times (`sixteen_devices`).

* `bindings_lt`: a run in which only slots of the arrays are read.
* `sockets_null`: a run that returns.
* `full_bindings_iff`: the services that are started as they are bound.
-/
namespace Bootd

open Bootd.Core

/-- `service_start` returns, only slots of the arrays were read, there is one listener for
each address of a UDP or RPC service and one for each device of a link service, and
nothing else; all of them are in the list. -/
def StartsBound (env : StartEnv) (svs : List ServiceT) (w : World) (ds : List Device) : Prop :=
  ∃ st', serviceStart env svs (.start w ds) = .ok () st' ∧ (∀ e ∈ st'.trace, InArray e) ∧
    (startedIn st'.trace).map (·.1) = wanted svs ds ∧ st'.w.listeners = (startedIn st'.trace).map (·.2)

section
variable {env : StartEnv} {svs : List ServiceT} {w : World} {ds : List Device} {st st' : StartState} {s : ServiceT}
  {os : Os} {c : Ctor} {k : Started}

/-- Each service is started, and what that records is there at the end. -/
theorem serviceStart_each (h : serviceStart env svs st = .ok () st') (hs : s ∈ svs) :
    ∃ s₁ s₂, startService env s s₁ = .ok () s₂ ∧ ∀ e ∈ s₂.trace, e ∈ st'.trace := by
  unfold serviceStart at h
  obtain ⟨_, st₁, hsvs, h⟩ := Exec.bind_ok.mp h
  rw [Exec.get_run] at h
  obtain ⟨s₁, s₂, rest, hrun, hrest⟩ := Exec.forM_ok hsvs hs
  refine ⟨s₁, s₂, hrun, fun e he => ?_⟩
  exact (Records.forM (Records.startLink env) _).mem h ((Records.forM (Records.startService env) rest).mem hrest he)

/-- A full array is read beyond its end. -/
theorem bindings_lt (h : startService env s st = .ok () st')
    (hreads : ∀ e ∈ st'.trace, InArray e) : s.bindings < serviceBindMax := by
  have hslot : ∀ {β : Type} {bs : List β} {behind : Option β} {body : β → StartM Unit},
      (∀ b, Records (body b)) → eachSlot s.name body 0 (slotsOf bs behind) st = .ok () st' →
        bs.length < serviceBindMax := by
    intro β bs behind body hbody hrun
    obtain ⟨o, m, hsplit, -⟩ := slotsOf_split bs behind
    rw [hsplit] at hrun
    have hin := hreads _ (eachSlot_reads hbody hrun)
    rw [Nat.zero_add] at hin
    exact hin
  unfold startService at h
  unfold ServiceT.bindings
  split_ifs at h ⊢
  · exact hslot (Records.startLinkBinding env s) h
  · exact hslot (fun _ => .startListener _ _ _) h
  · exact hslot (fun _ => .startListener _ _ _) h
  · decide

/-- The listener of an address can be added only where a store through NULL is not noticed. -/
theorem startListener_null (h : startListener os k (c.run os) st = .ok () st') (hc : c.Succeeds os)
    (hname : c.name = none) : os.nullStore = true := by
  obtain ⟨l, hl⟩ := Ctor.run_succeeds hc st.w
  obtain ⟨-, -, -, hn, -⟩ := Ctor.run_ok hl
  have hnew := onWorld_run (c.run os) st
  rw [hl] at hnew
  unfold startListener at h
  rw [Exec.bind_run hnew] at h
  obtain ⟨_, st₁, -, hadd⟩ := Exec.bind_ok.mp h
  by_contra hnull
  rw [onWorld_run, listenerAdd, if_pos ⟨hn.trans hname, hnull⟩] at hadd
  cases hadd

theorem sockets_null (henv : env.Succeeds) (h : startService env s st = .ok () st') :
    s.sockets = [] ∨ env.os.nullStore = true := by
  have hfirst : ∀ {β : Type} {bs : List β} {behind : Option β} {kind : β → Started} (ctor : β → Ctor),
      (∀ b, (ctor b).Succeeds env.os ∧ (ctor b).name = none) →
        eachSlot s.name (fun b => startListener env.os (kind b) ((ctor b).run env.os)) 0 (slotsOf bs behind) st =
          .ok () st' → bs = [] ∨ env.os.nullStore = true := by
    intro β bs behind kind ctor hctor hrun
    cases bs with
    | nil => exact .inl rfl
    | cons b bs =>
      obtain ⟨_, st₁, -, hrun⟩ := Exec.bind_ok.mp hrun
      obtain ⟨_, st₂, hb, -⟩ := Exec.bind_ok.mp hrun
      exact .inr (startListener_null hb (hctor b).1 (hctor b).2)
  unfold startService at h
  unfold ServiceT.sockets
  split_ifs at h ⊢
  · exact .inl rfl
  · exact (hfirst (fun _ => .udp none s.handler) (fun _ => ⟨henv.socket, rfl⟩) h).imp_left fun hnil => by
      rw [hnil]
      rfl
  · exact (hfirst (fun _ => .rpcUdp env.rpc) (fun _ => ⟨⟨henv.socket, henv.rpc⟩, rfl⟩) h).imp_left fun hnil => by
      rw [hnil]
      rfl
  · exact .inl rfl

end

/-- **The services that are started as they are bound**: those with fewer than 16
bindings, where the missing names of the listeners do no harm. -/
theorem full_bindings_iff (env : StartEnv) (svs : List ServiceT) (w : World) (ds : List Device)
    (hw : w.listeners = []) (henv : env.Succeeds) (hnodup : (ds.map (·.name)).Nodup)
    (hacc : ∀ s ∈ svs, s.Accepted ds) : StartsBound env svs w ds ↔
      (∀ s ∈ svs, s.bindings < serviceBindMax) ∧ ((∀ s ∈ svs, s.sockets = []) ∨ env.os.nullStore = true) := by
  constructor
  · rintro ⟨st', hrun, hreads, -, -⟩
    refine ⟨fun s hs => ?_, or_iff_not_imp_right.mpr fun hnull s hs => ?_⟩
    · obtain ⟨s₁, s₂, hs₂, hkept⟩ := serviceStart_each hrun hs
      exact bindings_lt hs₂ fun e he => hreads e (hkept e he)
    · obtain ⟨s₁, s₂, hs₂, -⟩ := serviceStart_each hrun hs
      exact (sockets_null henv hs₂).resolve_right hnull
  · rintro ⟨hlt, hnull⟩
    obtain ⟨st', hrun, hst⟩ := serviceStart_run hw henv hnodup hacc hlt fun s hs => hnull.imp_left fun h => h s hs
    exact ⟨st', hrun, hst.reads, hst.made, hst.listeners⟩

/-- A machine on which all calls succeed. -/
def plainStart : StartEnv := { plainEnv with link := fun _ => plainLink, rpc := true }

theorem plainStart_succeeds : plainStart.Succeeds := ⟨rfl, rfl, fun _ => ⟨rfl, rfl, rfl⟩⟩

/-- The memory before a listener is created. -/
def noListeners : World := { emptyWorld with listeners := [] }

/-- `service rarp { device eth0 … eth0; }`, with `n` words. -/
def rarpOn (n : Nat) : ServiceT :=
  { serviceNew (cstr "rarp") serviceRarp with device := .replicate n (cstr "eth0") : NetService }.full

/-- `service tftp { bind :69; }` -/
def tftpOn : ServiceT := { serviceNew (cstr "tftp") serviceTftp with bindaddr := [⟨0, 69⟩] : NetService }.full

theorem rarpOn_accepted {n : Nat} (h : n ≤ serviceBindMax) : (rarpOn n).Accepted plainEnv.sysDevices where
  device := by
    show (List.replicate n (cstr "eth0")).length ≤ serviceBindMax
    rwa [List.length_replicate]
  bindaddr := Nat.zero_le _
  known m hm := ⟨_, .head _, (List.mem_replicate.mp hm).2.symm⟩

theorem tftpOn_accepted : tftpOn.Accepted plainEnv.sysDevices where
  device := Nat.zero_le _
  bindaddr := by decide
  known m hm := nomatch hm

/-- Two services, which get a listener each. -/
theorem full_bindings_two : StartsBound plainStart [rarpOn 15, tftpOn] noListeners plainEnv.sysDevices := by
  have hacc : ∀ s ∈ [rarpOn 15, tftpOn], s.Accepted plainEnv.sysDevices :=
    List.forall_mem_cons.mpr ⟨rarpOn_accepted (by decide), List.forall_mem_singleton.mpr tftpOn_accepted⟩
  exact (full_bindings_iff plainStart _ noListeners plainEnv.sysDevices rfl plainStart_succeeds (by decide) hacc).mpr
    ⟨by decide, .inr rfl⟩

/-- With 16 words the daemon exits: the 17th name is the filter. -/
theorem sixteen_exits : ∃ st', serviceStart plainStart [rarpOn 16] (.start noListeners plainEnv.sysDevices) =
    .error .exit st' := ⟨_, rfl⟩

/-- **Counterexample**: a device that is given 16 times. -/
theorem sixteen_devices : ¬∀ (env : StartEnv) (svs : List ServiceT) (w : World) (ds : List Device),
    w.listeners = [] → env.Succeeds → (ds.map (·.name)).Nodup → (∀ s ∈ svs, s.Accepted ds) →
    StartsBound env svs w ds := by
  intro h
  have hacc : ∀ s ∈ [rarpOn 16], s.Accepted plainEnv.sysDevices :=
    List.forall_mem_singleton.mpr (rarpOn_accepted (Nat.le_refl 16))
  obtain ⟨st', hrun, -⟩ := h plainStart [rarpOn 16] noListeners plainEnv.sysDevices rfl plainStart_succeeds
    (by decide) hacc
  obtain ⟨st, hexit⟩ := sixteen_exits
  rw [hrun] at hexit
  cases hexit

end Bootd
