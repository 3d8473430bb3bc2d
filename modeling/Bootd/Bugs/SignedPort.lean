import Bootd.Config.BindSpec
import Bootd.Config.Eval

/-!
# Ports that are no ports

`str_get_hostport` checks the range of a port only where its text begins with a digit
(src/str.c:176-192). `service_udp_add` takes for a number whatever `strtol` takes for one,
and stores the low 16 bits of it (src/service.c:181-182). So a number with a sign, or with
a tab in front of it, is not checked.

Counterexample: `*:-1`, which is bound to port 65535 (`negative_port`).

* `PortTaken`: the port text is refused, or taken for the number it is.
* `bindHost_somewhere`: every host is known on some machine.
* `udpAdd_taken`, `udpAdd_mistaken`: what is bound then, and that otherwise a wrong port is.
* `real_ports_iff`: the texts with which only the number given is ever bound.
-/
namespace Bootd

/-- A service that binds the text is given port `v` in all slots that are filled, and
succeeds only if that is a port; if it is none, the text is refused and no slot is filled.
The machine has this C library and this on its stack. -/
def OnlyPort (lib : Conf) (stack : Buf) (w : CStr) (v : Int) : Prop :=
  ∀ (env : SetupEnv) (s : Nat) (sv : NetService) (st st' : Setup) (r : Bool), env.lib = lib → env.stack = stack →
    st.services[s]? = some sv → serviceUdpAdd env s w st = .ok (r, st') →
    ∃ added : List SockAddr, st'.services = st.services.set s { sv with bindaddr := sv.bindaddr ++ added } ∧
      (∀ a ∈ added, (a.port.toNat : Int) = v) ∧ (¬(0 ≤ v ∧ v ≤ 65535) → r = false ∧ added = [])

/-- `u` is refused, or taken for port `v`. -/
def PortTaken (u : CStr) (v : Int) : Prop :=
  if startsDigit u then ∀ n, intText u = some n → 0 ≤ n → n ≤ 65535 → n = v
  else (strGetInt u).2 = true ∧ ((UInt16.ofInt (strGetInt u).1).toNat : Int) = v

section
variable {w u host : CStr} {stack : Buf} {lib : Conf} {v n : Int} {env : SetupEnv} {st st' : Setup} {s : Nat}
  {r : Bool} {sv : NetService}

/-- A number in its own place is taken for what it is exactly if it is checked or in range. -/
theorem portTaken_iff (h : intText u = some v) : PortTaken u v ↔ startsDigit u = true ∨ 0 ≤ v ∧ v ≤ 65535 := by
  have hget : strGetInt u = (int32 (clampLong v), true) := by
    unfold strGetInt
    rw [strtol_intText h]
    rfl
  unfold PortTaken
  by_cases hd : startsDigit u = true
  · rw [if_pos hd]
    refine iff_of_true (fun n hn _ _ => ?_) (.inl hd)
    rw [h] at hn
    exact (Option.some.inj hn).symm
  · rw [if_neg hd, hget]
    constructor
    · rintro ⟨-, hval⟩
      have hlt := (UInt16.ofInt (int32 (clampLong v))).toNat_lt
      have hval' : ((UInt16.ofInt (int32 (clampLong v))).toNat : Int) = v := hval
      exact .inr (by omega)
    · rintro (hyes | ⟨h0, h1⟩)
      · exact absurd hyes hd
      · rw [clampLong_of_fits (by omega) (by omega), int32_of_fits (by omega) (by omega)]
        exact ⟨rfl, toNat_ofInt h0 h1⟩

/-- If the port is taken for `v`, no other is bound. -/
theorem udpAdd_taken (h : HostRefused lib.inetAton w ∨ PortTaken (portCopy stack w) v) : OnlyPort lib stack w v := by
  rintro env s sv st st' r rfl rfl hsv hadd
  have hnone : strGetHostport env.lib.inetAton env.stack w = none →
      ∃ added : List SockAddr, st'.services = st.services.set s { sv with bindaddr := sv.bindaddr ++ added } ∧
        (∀ a ∈ added, (a.port.toNat : Int) = v) ∧ (¬(0 ≤ v ∧ v ≤ 65535) → r = false ∧ added = []) := by
    intro hw
    rw [serviceUdpAdd_refused hw] at hadd
    cases hadd
    refine ⟨[], ?_, by simp, fun _ => ⟨rfl, rfl⟩⟩
    rw [List.append_nil]
    exact (set_eq_self hsv).symm
  -- a port that is bound is `v`
  have hbound : ∀ {host u : CStr} {port : UInt16}, strGetHostport env.lib.inetAton env.stack w = some (host, u) →
      bindPort env u = some port → (port.toNat : Int) = v →
        ∃ added : List SockAddr, st'.services = st.services.set s { sv with bindaddr := sv.bindaddr ++ added } ∧
          (∀ a ∈ added, (a.port.toNat : Int) = v) ∧ (¬(0 ≤ v ∧ v ≤ 65535) → r = false ∧ added = []) := by
    intro host u port hw hp hport
    rw [serviceUdpAdd_bound hw hp] at hadd
    obtain ⟨ips, hips⟩ := bindHost_binds hadd sv hsv
    refine ⟨ips.map (⟨·, port⟩), hips, fun a ha => ?_, fun hno => ?_⟩
    · obtain ⟨ip, -, rfl⟩ := List.mem_map.mp ha
      exact hport
    · have := port.toNat_lt
      omega
  by_cases href : HostRefused env.lib.inetAton w
  · exact hnone (strGetHostport_refused href)
  · have htaken := h.resolve_left href
    unfold PortTaken at htaken
    split_ifs at htaken with hd
    · cases hint : intText (portCopy env.stack w) with
      | none => exact hnone ((strGetHostport_checked env.stack href).trans (checkPort_word hd hint))
      | some n =>
        have hcheck := (strGetHostport_checked env.stack href).trans (checkPort_digit hd hint)
        by_cases hn : 0 ≤ n ∧ n ≤ 65535
        · rw [if_pos hn] at hcheck
          refine hbound hcheck (bindPort_checked hint hn.1 hn.2) ?_
          rw [toNat_ofInt hn.1 hn.2]
          exact htaken n hint hn.1 hn.2
        · rw [if_neg hn] at hcheck
          exact hnone hcheck
    · have hcheck := (strGetHostport_checked env.stack href).trans (checkPort_other (eq_false_of_ne_true hd))
      exact hbound hcheck (bindPort_number htaken.1) htaken.2

/-! ## A machine that knows the host -/

/-- One service, and a device of this name and address. -/
def oneDevice (host : CStr) (eth : Ether) : Setup :=
  { plainSetup with services := [serviceNew (cstr "tftp") serviceTftp], devices := [⟨host, eth, [1]⟩] }

theorem bindHost_somewhere (env : SetupEnv) (host : CStr) (port : UInt16) : ∃ eth st' ip,
    bindHost env 0 host port (oneDevice host eth) = .ok (true, st') ∧
      st'.services = [{ serviceNew (cstr "tftp") serviceTftp with bindaddr := [⟨ip, port⟩] }] := by
  refine ⟨(env.lib.etherAton host).getD .zero, ?_⟩
  generalize heth : (env.lib.etherAton host).getD .zero = eth
  let st' (ip : Ip) : Setup := { oneDevice host eth with
    services := [{ serviceNew (cstr "tftp") serviceTftp with bindaddr := [⟨ip, port⟩] }] }
  have hdev : lServiceUdpDeviceAdd 0 ⟨host, eth, [1]⟩ port (oneDevice host eth) = .ok (true, st' 1) := rfl
  unfold bindHost
  by_cases hany : host = []
  · rw [if_pos hany]
    exact ⟨st' 0, 0, rfl, rfl⟩
  · rw [if_neg hany]
    cases env.lib.inetAton host with
    | some ip => exact ⟨st' ip, ip, rfl, rfl⟩
    | none =>
      refine ⟨st' 1, 1, ?_, rfl⟩
      cases hether : env.lib.etherAton host with
      | some e =>
        rw [hether, Option.getD_some] at heth
        subst heth
        have hsearch : deviceSearchByEth env e (oneDevice host e) = .ok (some ⟨host, e, [1]⟩, oneDevice host e) := by
          have hfind : [(⟨host, e, [1]⟩ : Device)].find? (·.eth == e) = some ⟨host, e, [1]⟩ :=
            List.find?_cons_of_pos (beq_self_eq_true e)
          exact (deviceSearchByEth_run env e (oneDevice host e)).trans
            (congrArg (fun o => Except.ok (o, oneDevice host e)) hfind)
        simp only [bind, StateT.bind, Except.bind, hsearch]
        exact hdev
      | none =>
        have hsearch : deviceSearchByName env host (oneDevice host eth) =
            .ok (some ⟨host, eth, [1]⟩, oneDevice host eth) := by
          have hfind : [(⟨host, eth, [1]⟩ : Device)].find? (·.name == host) = some ⟨host, eth, [1]⟩ :=
            List.find?_cons_of_pos (beq_self_eq_true host)
          exact (deviceSearchByName_run env host (oneDevice host eth)).trans
            (congrArg (fun o => Except.ok (o, oneDevice host eth)) hfind)
        simp only [bind, StateT.bind, Except.bind, hsearch]
        exact hdev

/-- What is bound on such a machine is what is taken for the port. -/
theorem OnlyPort.port_eq (h : OnlyPort lib stack w v) (serv : CStr → Option UInt16)
    (hw : strGetHostport lib.inetAton stack w = some (host, u)) {port : UInt16}
    (hp : ∀ env : SetupEnv, env.getservbyname = serv → bindPort env u = some port) : (port.toNat : Int) = v := by
  let env : SetupEnv := ⟨lib, plainOs, [], serv, fun _ => true, stack⟩
  obtain ⟨eth, st', ip, hrun, hst'⟩ := bindHost_somewhere env host port
  have hbound : serviceUdpAdd env 0 w = bindHost env 0 host port := serviceUdpAdd_bound hw (hp env rfl)
  rw [← hbound] at hrun
  obtain ⟨added, hadded, hall, -⟩ := h env 0 (serviceNew (cstr "tftp") serviceTftp) _ st' true rfl rfl rfl hrun
  have hlist : [(⟨ip, port⟩ : SockAddr)] = added := by
    have heq := hst'.symm.trans hadded
    exact congrArg NetService.bindaddr (List.cons.inj heq).1
  rw [← hlist] at hall
  exact hall _ (List.mem_singleton_self _)

/-- Otherwise another one is, somewhere. -/
theorem udpAdd_mistaken (h : OnlyPort lib stack w v) (href : ¬HostRefused lib.inetAton w) :
    PortTaken (portCopy stack w) v := by
  have hcheck := strGetHostport_checked stack href
  unfold PortTaken
  split_ifs with hd
  · intro n hint h0 h1
    rw [checkPort_digit hd hint, if_pos ⟨h0, h1⟩] at hcheck
    have hport := h.port_eq (fun _ => none) hcheck fun env _ => bindPort_checked hint h0 h1
    rwa [toNat_ofInt h0 h1] at hport
  · rw [checkPort_other (eq_false_of_ne_true hd)] at hcheck
    by_cases hnum : (strGetInt (portCopy stack w)).2 = true
    · exact ⟨hnum, h.port_eq (fun _ => none) hcheck fun env _ => bindPort_number hnum⟩
    · -- some system has a service of that name, at port 0 or at port 1
      have hname : ∀ port : UInt16, (port.toNat : Int) = v := fun port =>
        h.port_eq (fun _ => some port) hcheck fun env henv => by
          rw [bindPort_name (eq_false_of_ne_true hnum), henv]
      exact absurd ((hname 0).trans (hname 1).symm) (by decide)

end

/-- **The texts with which only the number given is ever bound**: those that are refused
for their host, and those whose port, as it stands in the copy, is refused or taken for
that number. The copy of a text of at most 254 bytes has the port of the text: it must
begin with a digit, or be in range. -/
theorem real_ports_iff (lib : Conf) (stack : Buf) (w : CStr) (v : Int) (h0 : 0 ∉ w)
    (hint : intText (portPart w) = some v) :
    (OnlyPort lib stack w v ↔ HostRefused lib.inetAton w ∨ PortTaken (portCopy stack w) v) ∧
      (w.length ≤ 254 → (OnlyPort lib stack w v ↔
        HostRefused lib.inetAton w ∨ startsDigit (portPart w) = true ∨ 0 ≤ v ∧ v ≤ 65535)) := by
  have hiff : OnlyPort lib stack w v ↔ HostRefused lib.inetAton w ∨ PortTaken (portCopy stack w) v :=
    ⟨fun h => or_iff_not_imp_left.mpr (udpAdd_mistaken h), udpAdd_taken⟩
  refine ⟨hiff, fun hlen => ?_⟩
  rw [hiff, portCopy_short h0 hlen stack hint, portTaken_iff hint]

/-- A port in range. -/
theorem real_ports_tftp : OnlyPort plainConf [] (cstr "*:+69") 69 :=
  ((real_ports_iff plainConf [] (cstr "*:+69") 69 (by decide) (by decide)).2 (by decide)).mpr
    (.inr (.inr (by decide)))

/-- **Counterexample**: port -1 is accepted, as 65535. -/
theorem negative_port : ¬∀ (lib : Conf) (stack : Buf) (w : CStr) (v : Int), 0 ∉ w → intText (portPart w) = some v →
    OnlyPort lib stack w v := by
  intro h
  have hport := udpAdd_mistaken (h plainConf [] (cstr "*:-1") (-1) (by decide) (by decide))
    (by unfold HostRefused; decide)
  have hval : ((UInt16.ofInt (strGetInt (portCopy [] (cstr "*:-1"))).1).toNat : Int) = 65535 := by decide
  unfold PortTaken at hport
  rw [if_neg (by decide), hval] at hport
  exact absurd hport.2 (by decide)

end Bootd
