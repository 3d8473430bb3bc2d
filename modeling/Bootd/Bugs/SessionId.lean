import Bootd.L4Daemon.Track

/-!
# RMP session ids stop working after 65535 boot requests

`rmp_sid` is an `int` that counts boot requests (src/rmp.c:26,131). The session
keeps it whole, the reply has its low 16 bits (`repl->session =
htons(h->session->sid)`), and `host_session_check` compares the 16 bits of the
next read request with the whole of it.

Counterexample: the boot request after 65534 others gets the session id 65536,
which is 0 on the wire (`rmp_sid_wraps`).

`rmp_sid_accepted_iff`: the id of a new session is accepted as long as that is
active exactly if it is one of 0 to 65535 to begin with.
-/
namespace Bootd

open Bootd.Core

/-- The id in the reply for the session of `h`, as the client reads it.
mirrors src/rmp.c:150 -/
def bootReplSession (w : World) (h : HostId) : Nat :=
  match (w.sessionOf h).bind w.live with
  | some ses => (ses.sid % 65536).toNat
  | none => 0

/-- A read request with session id `n` from host `h` passes the check. -/
def Accepts (os : Os) (w : World) (h : HostId) (n : Nat) : Prop :=
  ∃ w', hostSessionCheck os h serviceRmp n w = .ok .noError w'

section
variable {w : World} {h : HostId} {s : SessId} {ses : Session}

theorem bootReplSession_eq (hs : w.sessionOf h = some s) (hl : w.live s = some ses) :
    bootReplSession w h = (ses.sid % 65536).toNat := by
  rw [bootReplSession, hs, Option.bind_some, hl]

/-- The low 16 bits of an `int` are that `int`. -/
theorem low16_iff (x : Int) : x = ((x % 65536).toNat : Int) ↔ 0 ≤ x ∧ x ≤ 65535 := by
  omega

end

/-- **When the id of a new session is accepted**: for every boot request of every
run that opens a file for the session `s`, and in every later state in which `s`
is active. -/
theorem rmp_sid_accepted_iff (c : Conf) (σ σ₁ σ₂ : Sys) (os os' : Os) (l : Listener) (p : Pkt)
    (es : List Ev) (h : HostId) (s : SessId) (path : Option CStr) (fd : Fd) (ses : Session)
    (hr : (daemon c).Reachable σ) (hboot : (daemon c).step σ (.link os l p) σ₁)
    (hopen : .openFile h s path (some fd) ∈ σ₁.w.out) (hrun : (daemon c).Run σ₁ es σ₂)
    (hs : σ₂.w.sessionOf h = some s) (hl : σ₂.w.live s = some ses) :
    Accepts os' σ₂.w h (bootReplSession σ₁.w h) ↔
      0 ≤ int32 (σ.w.rmpSid + 1) ∧ int32 (σ.w.rmpSid + 1) ≤ 65535 := by
  obtain ⟨L, hok⟩ := daemon_hostsOk σ hr
  have hd := daemon_descriptors σ hr
  obtain ⟨t, f, ses₁, d, -, -, -, ho⟩ := handle_opened hok.start hd.start rfl hboot.2.1 hopen
  -- the session is the same in both states
  have hlt : s < σ₁.w.sessions.length := Slots.lt_of_get ho.live
  obtain ⟨-, hk⟩ := run_kept (hr.step hboot) hrun
  obtain ⟨ses', hl', hsame⟩ := hk.sessions s hlt ses hl
  rw [ho.live] at hl'; cases hl'
  have hsid : ses₁.sid = int32 (σ.w.rmpSid + 1) := ho.sid
  have hsvc : ses.service = serviceRmp := hsame.service.trans ho.service
  unfold Accepts
  rw [hostSessionCheck_iff hs hl hsvc, bootReplSession_eq ho.sessionOf ho.live, hsame.sid_eq, hsid]
  exact low16_iff _

/-- Room for one session. -/
def oneSession : Conf := { plainConf with cSessionMax := 1 }

/-- The machine 5 has booted as a clone of host 0, and has the session. -/
def taken : Sys := bootSys.next oneSession (bootK plainOs (plainEther 5) 0)

theorem step_taken : (daemon oneSession).Reachable bootSys ∧
    (daemon oneSession).step bootSys (bootK plainOs (plainEther 5) 0) taken :=
  ⟨LTS.reachable_init ⟨boot_max 1, rfl⟩,
    daemon_next ⟨List.mem_cons_of_mem _ List.mem_cons_self, rfl⟩ (by decide +kernel)⟩

/-- The first session id is accepted. -/
theorem rmp_sid_taken : Accepts plainOs taken.w 1 (bootReplSession taken.w 1) := by
  have hopen : .openFile 1 0 (some (cstr "/boot/k")) (some 5) ∈ taken.w.out :=
    List.mem_cons_of_mem _ List.mem_cons_self
  have hs : taken.w.sessionOf 1 = some 0 := rfl
  obtain ⟨ses, hl⟩ : ∃ ses, taken.w.live 0 = some ses := ⟨_, rfl⟩
  exact (rmp_sid_accepted_iff oneSession bootSys taken taken plainOs plainOs _ _ [] 1 0 _ 5 ses
    step_taken.1 step_taken.2 hopen (.nil _) hs hl).mpr (by decide)

/-! ## The counter gets there -/

/-- The daemon after a number of boot requests of host 0, all refused. -/
def counted (n : Int) : World := { taken.w with rmpSid := n, out := [] }

set_option maxRecDepth 4000 in
theorem boot_counted (n : Int) : (bootK plainOs (plainEther 1) 0).handle oneSession (counted n) =
    .ok () (counted (int32 (n + 1))) := rfl

theorem taken_counted : taken.w.start = counted (2 + (0 : Nat)) := by
  have h : taken.w.rmpSid = 2 + (0 : Nat) := rfl
  rw [counted, ← h]
  rfl

theorem counted_enabled {σ : Sys} {n : Int} (hw : σ.w.start = counted n) (eth : Ether) :
    (bootK plainOs eth 0).Enabled σ.w := by
  have hlis : σ.w.start.listeners = [port69, linkPort] := by rw [hw]; rfl
  exact ⟨hlis ▸ List.mem_cons_of_mem _ List.mem_cons_self, rfl⟩

theorem counted_reachable (n : Nat) (hn : n ≤ 65533) :
    ∃ σ, (daemon oneSession).Reachable σ ∧ σ.w.start = counted (2 + n) := by
  induction n with
  | zero =>
    refine ⟨taken, ?_, taken_counted⟩
    exact LTS.Reachable.step (l := bootK plainOs (plainEther 5) 0) step_taken.1 step_taken.2
  | succ n ih =>
    obtain ⟨σ, hr, hw⟩ := ih (by omega)
    have hstep : (daemon oneSession).step σ (bootK plainOs (plainEther 1) 0)
        ⟨counted (int32 (2 + n + 1)), σ.hist ++ [[]]⟩ := by
      refine ⟨counted_enabled hw _, ?_, rfl⟩
      rw [hw]
      exact boot_counted (2 + n)
    refine ⟨_, hr.step hstep, ?_⟩
    have hn : int32 (2 + n + 1) = 2 + (n + 1 : Nat) := by
      rw [int32_of_fits (by omega) (by omega)]
      omega
    rw [hn]
    rfl

/-- The machine 5 boots again, and gets a new session. -/
def wrapped : World := Exec.final ((bootK plainOs (plainEther 5) 0).handle oneSession) (counted 65535)

set_option maxRecDepth 4000 in
theorem boot_wrapped : (bootK plainOs (plainEther 5) 0).handle oneSession (counted 65535) =
    .ok () wrapped := rfl

theorem wrapped_opened : .openFile 1 1 (some (cstr "/boot/k")) (some 6) ∈ wrapped.out :=
  List.mem_cons_of_mem _ (List.mem_cons_of_mem _ List.mem_cons_self)

set_option maxRecDepth 4000 in
theorem wrapped_refuses :
    hostSessionCheck plainOs 1 serviceRmp (bootReplSession wrapped 1) wrapped = .ok .badSid wrapped := rfl

set_option maxRecDepth 4000 in
/-- **Counterexample**: the 65535th boot request gets session 65536. The client
sees 0, and the check refuses it. -/
theorem rmp_sid_wraps : ¬ ∀ (c : Conf) (σ σ₁ σ₂ : Sys) (os os' : Os) (l : Listener) (p : Pkt)
    (es : List Ev) (h : HostId) (s : SessId) (path : Option CStr) (fd : Fd) (ses : Session),
    (daemon c).Reachable σ → (daemon c).step σ (.link os l p) σ₁ →
    .openFile h s path (some fd) ∈ σ₁.w.out → (daemon c).Run σ₁ es σ₂ →
    σ₂.w.sessionOf h = some s → σ₂.w.live s = some ses →
    Accepts os' σ₂.w h (bootReplSession σ₁.w h) := by
  intro hall
  obtain ⟨σ, hr, hw⟩ := counted_reachable 65533 (Nat.le_refl _)
  have hstep : (daemon oneSession).step σ (bootK plainOs (plainEther 5) 0)
      ⟨wrapped, σ.hist ++ [wrapped.out]⟩ := by
    refine ⟨counted_enabled hw _, ?_, rfl⟩
    rw [hw]
    exact boot_wrapped
  have hs : wrapped.sessionOf 1 = some 1 := rfl
  obtain ⟨ses, hl⟩ : ∃ ses, wrapped.live 1 = some ses := ⟨_, rfl⟩
  obtain ⟨w', hc⟩ := hall oneSession σ _ ⟨wrapped, _⟩ plainOs plainOs _ _ [] 1 1 _ 6 ses hr hstep
    wrapped_opened (.nil _) hs hl
  rw [wrapped_refuses] at hc
  cases hc

end Bootd
